import Mathlib.Data.List.Forall2
import MailSearch.Proofs.Header.Entries
import MailSearch.Proofs.Text.Trimming

/-! # Fields written out

A field can be written in many ways: with blanks around the value, with the value folded at its own
blanks, with either kind of line end. Each way makes one logical line, which makes the field.
-/

namespace MailSearch.HeaderField

open Utf8 (encode)

def IsLineEnd (s : String) : Prop := s = "\n" ∨ s = "\r\n"

instance (s : String) : Decidable (IsLineEnd s) := inferInstanceAs (Decidable (_ ∨ _))

def IsPadding (s : String) : Prop := ∀ c ∈ s.toList, c = ' ' ∨ c = '\t'

instance (s : String) : Decidable (IsPadding s) := List.decidableBAll _ _

/-- Folding puts line ends before some of the spaces and tabs of a text. -/
inductive Folds : List Char → List Char → Prop
  | nil : Folds [] []
  | keep {c : Char} {cs ds : List Char} : Folds cs ds → Folds (c :: cs) (c :: ds)
  | fold {c : Char} {cs ds : List Char} {lineEnd : String} : c = ' ' ∨ c = '\t' →
      IsLineEnd lineEnd → Folds cs ds → Folds (c :: cs) (lineEnd.toList ++ c :: ds)

/-- A name of visible ASCII without colons, and a trimmed value on one line. -/
structure IsPlain (f : HeaderField) : Prop where
  name_nonempty : f.name ≠ ""
  name_visible : ∀ c ∈ f.name.toList, 0x21 ≤ c.toNat ∧ c.toNat ≤ 0x7e ∧ c ≠ ':'
  value_unbroken : ∀ c ∈ f.value.toList, c ≠ '\r' ∧ c ≠ '\n'
  value_trimmed : trim f.value = f.value

inductive Renders : HeaderField → String → Prop
  | intro {f : HeaderField} (before after folded trailing lineEnd : String) :
      IsPadding before → IsPadding after → Folds f.value.toList folded.toList →
      IsPadding trailing → IsLineEnd lineEnd →
      Renders f (f.name ++ before ++ ":" ++ after ++ folded ++ trailing ++ lineEnd)

variable {s line tail : Bytes} {more ls : List Bytes} {cs ds : List Char} {c : Char}
  {f : HeaderField} {fs : List HeaderField} {text lineEnd : String}

theorem IsLineEnd.exists_eq (h : IsLineEnd lineEnd) :
    ∃ cr, (cr = "" ∨ cr = "\r") ∧ lineEnd = cr ++ "\n" := by
  rcases h with rfl | rfl
  · exact ⟨"", .inl rfl, rfl⟩
  · exact ⟨"\r", .inr rfl, rfl⟩

theorem lineFeed_not_mem_return {cr : String} (h : cr = "" ∨ cr = "\r") : '\n' ∉ cr.toList := by
  rcases h with rfl | rfl <;> decide

theorem IsPadding.isBlank (h : IsPadding text) : ∀ c ∈ text.toList, isBlank c = true := by
  intro c hc
  rcases h c hc with rfl | rfl <;> rfl

theorem IsPadding.encode_eq (h : IsPadding text) : encode text = text.toList.map Char.toUInt8 := by
  refine Utf8.encode_ascii fun c hc => ?_
  rcases h c hc with rfl | rfl <;> decide

theorem lineFeed_not_mem_encode (h : '\n' ∉ text.toList) : '\n'.toUInt8 ∉ encode text := by
  rw [Utf8.toUInt8_mem_encode (by decide)]
  exact h

theorem encode_lineFeed : encode "\n" = ['\n'.toUInt8] := by decide

theorem IsPadding.lineFeed_not_mem (h : IsPadding text) : '\n' ∉ text.toList := by
  intro hc
  exact absurd (h _ hc) (by decide)

theorem Folds.filter_eq (h : Folds cs ds) (hcs : ∀ c ∈ cs, c ≠ '\r' ∧ c ≠ '\n') :
    ds.filter (fun c => c != '\r' && c != '\n') = cs := by
  induction h with
  | nil => rfl
  | keep _ ih =>
    obtain ⟨hc, hcs⟩ := List.forall_mem_cons.mp hcs
    rw [List.filter_cons_of_pos (by simp [hc]), ih hcs]
  | fold _ hend _ ih =>
    obtain ⟨hc, hcs⟩ := List.forall_mem_cons.mp hcs
    have hdrop : ∀ {e : String}, IsLineEnd e →
        e.toList.filter (fun c => c != '\r' && c != '\n') = [] := by
      rintro e (rfl | rfl) <;> rfl
    rw [List.filter_append, hdrop hend, List.filter_cons_of_pos (by simp [hc]), ih hcs,
      List.nil_append]

theorem Folds.exists_lines (h : Folds cs ds) (hcs : '\n' ∉ cs) (ht : '\n'.toUInt8 ∉ tail) :
    ∃ first more, ds.flatMap String.utf8EncodeChar ++ tail = first ++ continued more ∧
      '\n'.toUInt8 ∉ first ∧ Unbroken more ∧ ∀ line ∈ more, isIndented line = true := by
  induction h with
  | nil => exact ⟨tail, [], by simp, ht, by simp [Unbroken], by simp⟩
  | @keep c cs ds _ ih =>
    rw [List.mem_cons, not_or] at hcs
    obtain ⟨first, more, he, hfirst, hmore, hi⟩ := ih hcs.2
    have hc : '\n'.toUInt8 ∉ String.utf8EncodeChar c := by
      rw [Utf8.toUInt8_mem_encodeChar (by decide)]
      exact hcs.1
    refine ⟨String.utf8EncodeChar c ++ first, more, ?_, ?_, hmore, hi⟩
    · rw [List.flatMap_cons, List.append_assoc, he, List.append_assoc]
    · rw [List.mem_append, not_or]
      exact ⟨hc, hfirst⟩
  | @fold c cs ds lineEnd hc hend _ ih =>
    rw [List.mem_cons, not_or] at hcs
    obtain ⟨first, more, he, hfirst, hmore, hi⟩ := ih hcs.2
    obtain ⟨cr, hcr, rfl⟩ := hend.exists_eq
    have henc : String.utf8EncodeChar c = [c.toUInt8] := by
      rcases hc with rfl | rfl <;> exact Utf8.encodeChar_ascii (by decide)
    refine ⟨encode cr, (c.toUInt8 :: first) :: more, ?_, ?_, ?_, ?_⟩
    · rw [List.flatMap_append, ← encode, Utf8.encode_append, encode_lineFeed, List.flatMap_cons,
        henc]
      simp only [List.append_assoc, he]
      rfl
    · exact lineFeed_not_mem_encode (lineFeed_not_mem_return hcr)
    · rw [unbroken_cons, List.mem_cons, not_or]
      refine ⟨⟨?_, hfirst⟩, hmore⟩
      rcases hc with rfl | rfl <;> decide
    · rw [List.forall_mem_cons, isIndented_cons]
      refine ⟨?_, hi⟩
      rcases hc with rfl | rfl <;> rfl

theorem encode_rendered (name before after folded trailing cr : String) :
    encode (name ++ before ++ ":" ++ after ++ folded ++ trailing ++ (cr ++ "\n")) =
      encode name ++ encode before ++
        ':'.toUInt8 :: encode (after ++ folded ++ trailing ++ cr) ++ ['\n'.toUInt8] := by
  have hcolon : encode ":" = [':'.toUInt8] := by decide
  simp [hcolon, encode_lineFeed]

theorem IsPlain.lineFeed_not_mem {before : String} (h : f.IsPlain) (hb : IsPadding before)
    (ht : '\n'.toUInt8 ∉ tail) :
    '\n'.toUInt8 ∉ encode f.name ++ encode before ++ ':'.toUInt8 :: tail := by
  have hname : '\n' ∉ f.name.toList := fun hc => absurd (h.name_visible _ hc).1 (by decide)
  simp only [List.mem_append, List.mem_cons, not_or]
  exact ⟨⟨lineFeed_not_mem_encode hname, lineFeed_not_mem_encode hb.lineFeed_not_mem⟩, by decide,
    ht⟩

theorem IsPlain.encode_name (h : f.IsPlain) :
    encode f.name = f.name.toList.map Char.toUInt8 := by
  refine Utf8.encode_ascii fun c hc => ?_
  exact Nat.lt_of_le_of_lt (h.name_visible c hc).2.1 (by decide)

theorem IsPlain.name_eq (h : f.IsPlain) :
    String.ofList ((encode f.name).map fun b => Char.ofNat b.toNat) = f.name := by
  rw [← Utf8.decodeLossy_ascii, Utf8.decodeLossy_encode]
  intro b hb
  rw [h.encode_name] at hb
  obtain ⟨c, hc, rfl⟩ := List.mem_map.mp hb
  have hvisible := (h.name_visible c hc).2.1
  rw [Utf8.toNat_toUInt8 (by omega)]
  omega

theorem IsPlain.opens {before : String} (h : f.IsPlain) (hb : IsPadding before) (tail : Bytes) :
    Opens (encode f.name ++ encode before ++ ':'.toUInt8 :: tail) (encode f.name) tail := by
  refine ⟨encode before, rfl, ?_, ?_, ?_⟩
  · rw [h.encode_name]
    simpa using h.name_nonempty
  · intro b hb
    rw [h.encode_name] at hb
    obtain ⟨c, hc, rfl⟩ := List.mem_map.mp hb
    obtain ⟨hlow, hhigh, hcolon⟩ := h.name_visible c hc
    have hascii : c.toNat < 0x80 := by omega
    rw [UInt8.le_iff_toNat_le, UInt8.le_iff_toNat_le, Utf8.toNat_toUInt8 hascii, ne_eq,
      Utf8.toUInt8_inj hascii (by decide)]
    exact ⟨hlow, hhigh, hcolon⟩
  · intro b hb'
    rw [hb.encode_eq] at hb'
    obtain ⟨c, hc, rfl⟩ := List.mem_map.mp hb'
    rcases hb c hc with rfl | rfl <;> simp

theorem filter_of_isPadding (h : IsPadding text) :
    text.toList.filter (fun c => c != '\r' && c != '\n') = text.toList := by
  rw [List.filter_eq_self]
  intro c hc
  rcases h c hc with rfl | rfl <;> rfl

theorem IsPlain.value_eq {after folded trailing cr : String} (h : f.IsPlain)
    (ha : IsPadding after) (hfold : Folds f.value.toList folded.toList) (ht : IsPadding trailing)
    (hcr : cr = "" ∨ cr = "\r") :
    trim (String.ofList ((after ++ folded ++ trailing ++ cr).toList.filter
      fun c => c != '\r' && c != '\n')) = f.value := by
  have hdrop : cr.toList.filter (fun c => c != '\r' && c != '\n') = [] := by
    rcases hcr with rfl | rfl <;> rfl
  rw [String.toList_append, String.toList_append, String.toList_append, List.filter_append,
    List.filter_append, List.filter_append, hdrop, hfold.filter_eq h.value_unbroken,
    filter_of_isPadding ha, filter_of_isPadding ht, List.append_nil, trim, String.toList_ofList,
    trimChars_padded ha.isBlank ht.isBlank]
  exact h.value_trimmed

/-- A written field is a logical line. -/
theorem Renders.exists_line (h : Renders f text) (hf : f.IsPlain) :
    ∃ line more, encode text = line ++ continued more ++ ['\n'.toUInt8] ∧
      '\n'.toUInt8 ∉ line ∧ Unbroken more ∧ (∀ line ∈ more, isIndented line = true) ∧
      Makes (line :: more) f := by
  cases h with | @intro before after folded trailing lineEnd hb ha hfold ht hend
  obtain ⟨cr, hcr, rfl⟩ := hend.exists_eq
  have htail : '\n'.toUInt8 ∉ encode (trailing ++ cr) := by
    apply lineFeed_not_mem_encode
    rw [String.toList_append, List.mem_append, not_or]
    exact ⟨ht.lineFeed_not_mem, lineFeed_not_mem_return hcr⟩
  obtain ⟨first, more, he, hfirst, hmore, hi⟩ :=
    hfold.exists_lines (fun hc => (hf.value_unbroken _ hc).2 rfl) htail
  have hopens := hf.opens hb (encode after ++ first)
  have hmakes : Makes (_ :: more) _ := .intro hopens
  have htext : encode after ++ first ++ continued more =
      encode (after ++ folded ++ trailing ++ cr) := by
    rw [List.append_assoc, ← he]
    simp [encode]
  rw [htext, Utf8.decodeLossy_encode, hf.value_eq ha hfold ht hcr, hf.name_eq] at hmakes
  refine ⟨_, more, ?_, ?_, hmore, hi, hmakes⟩
  · rw [encode_rendered, ← htext]
    simp
  · apply hf.lineFeed_not_mem hb
    rw [List.mem_append, not_or]
    exact ⟨lineFeed_not_mem_encode ha.lineFeed_not_mem, hfirst⟩

/-- The text opens with a header block whose lines make these fields. -/
structure Heads (s : Bytes) (fs : List HeaderField) : Prop where
  not_indented : ∀ line ∈ (headerLines s).head?, isIndented line = false
  fields : Fields (logicalLines (headerLines s)) fs

theorem heads_of_blank (h : IsLineEnd lineEnd) (body : Bytes) :
    Heads (encode lineEnd ++ body) [] := by
  obtain ⟨cr, hcr, rfl⟩ := h.exists_eq
  have hlines : headerLines (encode (cr ++ "\n") ++ body) = [] := by
    rw [Utf8.encode_append, encode_lineFeed, List.append_assoc, List.singleton_append]
    apply headerLines_of_blank
    · exact lineFeed_not_mem_encode (lineFeed_not_mem_return hcr)
    · rcases hcr with rfl | rfl <;> decide
  constructor
  · rw [hlines]
    simp
  · rw [hlines]
    exact .nil

theorem Heads.cons (hf : f.IsPlain) (h : Renders f text) (hs : Heads s fs) :
    Heads (encode text ++ s) (f :: fs) := by
  obtain ⟨line, more, htext, hline, hmore, hi, hmakes⟩ := h.exists_line hf
  obtain ⟨name, value, ho⟩ := hmakes.exists_opens
  have hblank : ∀ l ∈ line :: more, isBlankLine l = false := by
    rw [List.forall_mem_cons]
    exact ⟨ho.not_blank, fun l hl => isBlankLine_of_indented (hi l hl)⟩
  have hlines : headerLines (encode text ++ s) = line :: more ++ headerLines s := by
    rw [htext, List.append_assoc, List.singleton_append]
    exact headerLines_continued (unbroken_cons.mpr ⟨hline, hmore⟩) hblank
  constructor
  · rw [hlines]
    rintro l ⟨⟩
    exact ho.not_indented
  · rw [hlines, logicalLines_cons_append ho.not_indented hi hs.not_indented]
    exact .field hmakes hs.fields

theorem heads_rendered {texts : List String} (hfs : ∀ f ∈ fs, f.IsPlain)
    (h : List.Forall₂ Renders fs texts) (hs : Heads s []) :
    Heads (texts.flatMap encode ++ s) fs := by
  induction h with
  | nil => exact hs
  | cons hf _ ih =>
    obtain ⟨hplain, hfs⟩ := List.forall_mem_cons.mp hfs
    rw [List.flatMap_cons, List.append_assoc]
    exact (ih hfs).cons hplain hf

theorem Heads.parseBlock_eq (h : Heads s fs) : parseBlock s = fs :=
  (fields_parseBlock s).unique h.fields

end MailSearch.HeaderField
