import Mathlib.Data.List.Basic
import MailSearch.Proofs.Text.Utf8

/-! # Texts cut between bytes

The bytes of a text may be cut anywhere, also inside a character. What stands behind such a cut
begins with the bytes that the character still lacks, and goes on with text. In front of an ASCII
byte, and at the end, no character lacks anything.
-/

namespace MailSearch.Utf8

variable {s t v w rest : Bytes} {b : UInt8}

/-- The bytes of a text. -/
def IsText (s : Bytes) : Prop := ∃ text : String, s = encode text

/-- A character lacks the bytes `t`, which `s` begins with in front of text. -/
def Completes (t s : Bytes) : Prop := (∀ b ∈ t, 0x80 ≤ b.toNat) ∧ ∃ v, IsText v ∧ s = t ++ v

def OpensAscii (s : Bytes) : Prop := ∀ b ∈ s.head?, b.toNat < 0x80

theorem isText_encode (text : String) : IsText (encode text) := ⟨text, rfl⟩

theorem isText_nil : IsText [] := isText_encode ""

theorem IsText.append (hs : IsText s) (ht : IsText t) : IsText (s ++ t) := by
  obtain ⟨a, rfl⟩ := hs
  obtain ⟨b, rfl⟩ := ht
  exact ⟨a ++ b, (encode_append a b).symm⟩

theorem isText_encodeChar (c : Char) : IsText (String.utf8EncodeChar c) :=
  ⟨String.singleton c, by simp [encode]⟩

theorem isText_ascii (hb : b.toNat < 0x80) : IsText [b] := by
  have hvalid : b.toNat.isValidChar := .inl (Nat.lt_trans hb (by decide))
  have hchar : (Char.ofNat b.toNat).toNat = b.toNat := by
    rw [Char.ofNat, dif_pos hvalid]
    rfl
  have hlt : (Char.ofNat b.toNat).toNat < 0x80 := by omega
  have hbyte : (Char.ofNat b.toNat).toUInt8 = b :=
    UInt8.toNat_inj.mp ((toNat_toUInt8 hlt).trans hchar)
  rw [← hbyte, ← encodeChar_ascii hlt]
  exact isText_encodeChar _

theorem IsText.cons (hb : b.toNat < 0x80) (h : IsText s) : IsText (b :: s) :=
  (isText_ascii hb).append h

theorem opensAscii_cons (hb : b.toNat < 0x80) : OpensAscii (b :: s) := by
  rintro x ⟨⟩
  exact hb

theorem completes_nil_iff : Completes [] s ↔ IsText s := by
  constructor
  · rintro ⟨-, v, hv, rfl⟩
    exact hv
  · intro h
    exact ⟨by simp, s, h, rfl⟩

theorem IsText.exists_char (h : IsText (b :: s)) :
    ∃ c tail v, String.utf8EncodeChar c = b :: tail ∧ IsText v ∧ s = tail ++ v := by
  obtain ⟨text, htext⟩ := h
  rw [encode] at htext
  cases hcs : text.toList with
  | nil =>
    rw [hcs] at htext
    cases htext
  | cons c cs =>
    obtain ⟨lead, tail, hchar, -⟩ := readChar_encodeChar c []
    rw [hcs, List.flatMap_cons, hchar] at htext
    obtain ⟨rfl, rfl⟩ := List.cons.inj htext
    exact ⟨c, tail, _, hchar, ⟨String.ofList cs, by simp [encode]⟩, rfl⟩

/-- One byte on, the bytes that are lacking are one less, or a new character's. -/
theorem Completes.step (h : Completes t (b :: s)) :
    ∃ t', Completes t' s ∧ (∀ v, Completes t' v → Completes t (b :: v)) ∧
      (b.toNat < 0x80 → t = [] ∧ t' = []) := by
  obtain ⟨ht, v, hv, hs⟩ := h
  cases t with
  | cons x t =>
    obtain ⟨rfl, rfl⟩ := List.cons.inj hs
    obtain ⟨hb, ht'⟩ := List.forall_mem_cons.mp ht
    refine ⟨t, ⟨ht', v, hv, rfl⟩, ?_, fun hlt => absurd hlt (Nat.not_lt.mpr hb)⟩
    rintro w ⟨-, w, hw, rfl⟩
    exact ⟨ht, w, hw, rfl⟩
  | nil =>
    obtain rfl : b :: s = v := hs
    obtain ⟨c, tail, v, hchar, hrest, rfl⟩ := hv.exists_char
    have hsingle : b.toNat < 0x80 → tail = [] := by
      intro hb
      have hc : c.toNat < 0x80 := by
        by_contra hc
        have hmem : b ∈ String.utf8EncodeChar c := hchar ▸ List.mem_cons_self
        exact absurd hb (Nat.not_lt.mpr (le_of_mem_encodeChar (Nat.le_of_not_lt hc) hmem))
      rw [encodeChar_ascii hc] at hchar
      exact (List.cons.inj hchar).2.symm
    have htail : ∀ x ∈ tail, 0x80 ≤ x.toNat := by
      intro x hx
      refine le_of_mem_encodeChar (Nat.le_of_not_lt fun hc => ?_)
        (hchar ▸ List.mem_cons_of_mem _ hx)
      rw [encodeChar_ascii hc] at hchar
      rw [← (List.cons.inj hchar).2] at hx
      cases hx
    refine ⟨tail, ⟨htail, v, hrest, rfl⟩, ?_, fun hb => ⟨rfl, hsingle hb⟩⟩
    rintro w ⟨-, w, hw, rfl⟩
    rw [completes_nil_iff, ← List.cons_append, ← hchar]
    exact (isText_encodeChar c).append hw

theorem Completes.exists_tail (h : Completes t (b :: s)) : ∃ t', Completes t' s := by
  obtain ⟨t', ht', -⟩ := h.step
  exact ⟨t', ht'⟩

theorem Completes.of_ascii (hb : b.toNat < 0x80) (h : Completes t (b :: s)) :
    t = [] ∧ IsText s := by
  obtain ⟨t', ht', -, hclosed⟩ := h.step
  obtain ⟨rfl, rfl⟩ := hclosed hb
  exact ⟨rfl, completes_nil_iff.mp ht'⟩

theorem IsText.of_cons (hb : b.toNat < 0x80) (h : IsText (b :: s)) : IsText s :=
  ((completes_nil_iff.mpr h).of_ascii hb).2

theorem Completes.eq_nil (h : Completes t s) (hs : OpensAscii s) : t = [] := by
  obtain ⟨ht, v, -, rfl⟩ := h
  cases t with
  | nil => rfl
  | cons x t => exact absurd (hs x rfl) (Nat.not_lt.mpr (ht x List.mem_cons_self))

/-- In front of an ASCII byte a text can be cut. -/
theorem IsText.of_append (h : IsText (v ++ rest)) (hrest : OpensAscii rest) :
    IsText v ∧ IsText rest := by
  suffices hcut : ∀ t, Completes t (v ++ rest) → Completes t v ∧ IsText rest by
    simpa only [completes_nil_iff] using hcut [] (completes_nil_iff.mpr h)
  intro t ht
  clear h
  induction v generalizing t with
  | nil =>
    obtain rfl := ht.eq_nil hrest
    exact ⟨completes_nil_iff.mpr isText_nil, completes_nil_iff.mp ht⟩
  | cons b v ih =>
    obtain ⟨t', ht', hback, -⟩ := ht.step
    obtain ⟨hv, hr⟩ := ih t' ht'
    exact ⟨hback v hv, hr⟩

theorem encode_decodeLossy (h : IsText s) : encode (decodeLossy s) = s := by
  obtain ⟨text, rfl⟩ := h
  rw [decodeLossy_encode]

theorem encode_intercalate (sep : String) (ts : List String) :
    encode (sep.intercalate ts) = (encode sep).intercalate (ts.map encode) := by
  induction ts with
  | nil => rfl
  | cons t ts ih =>
    cases ts with
    | nil => simp
    | cons u ts =>
      rw [String.intercalate_cons_cons, encode_append, encode_append, ih]
      simp

end MailSearch.Utf8
