import MailSearch.Proofs.Header.Fields

/-! # Reading a header block

The reader of header blocks goes from byte to byte and knows no lines. On the lines of a block it
finds exactly the fields that their logical lines make, in order.
-/

namespace MailSearch.HeaderField

open MailSearch.Parser
open Address (ByteParser byte byte_cons byte_eq_some run_eq_some progresses_byte)

variable {s line name text : Bytes} {ls more : List Bytes} {fs : List HeaderField}

theorem lineText_eq (h : '\n'.toUInt8 ∉ line) :
    lineText (line ++ continued ls) = some (line, continued ls) := by
  change some (_, _) = _
  rw [(span_line h).1, (span_line h).2]

theorem continuation_of_indented (h : '\n'.toUInt8 ∉ line) (hi : isIndented line = true) :
    continuation (continued (line :: ls)) = some ('\n'.toUInt8 :: line, continued ls) := by
  cases line with
  | nil => cases hi
  | cons b line =>
    rw [isIndented_cons] at hi
    have hb : (satisfy isMargin : ByteParser UInt8) (b :: (line ++ continued ls)) =
        some (b, line ++ continued ls) := satisfy_eq_some.mpr ⟨hi, rfl⟩
    rw [continued_cons, continuation, bind_of_eq_some (byte_cons _), List.cons_append,
      bind_of_eq_some hb, bind_of_eq_some (lineText_eq fun hmem => h (List.mem_cons_of_mem b hmem))]
    rfl

theorem continuation_of_not_indented (h : ∀ line ∈ ls.head?, isIndented line = false) :
    continuation (continued ls) = none := by
  cases ls with
  | nil => rfl
  | cons line ls =>
    have hline := h line rfl
    rw [continued_cons, continuation, bind_of_eq_some (byte_cons _)]
    apply bind_of_eq_none
    cases line with
    | nil => cases ls <;> rfl
    | cons b line =>
      rw [isIndented_cons] at hline
      rw [List.cons_append, satisfy, if_neg (ne_true_of_eq_false hline)]
      rfl

theorem progresses_continuation : Progresses continuation :=
  (progresses_byte _).bind fun _ => (progresses_satisfy _).shortens.bind fun _ =>
    (shortens_span _).bind fun _ => shortens_pure _

theorem many_continuation (h : Unbroken ls) :
    many continuation (continued ls) =
      some ((ls.takeWhile isIndented).map ('\n'.toUInt8 :: ·),
        continued (ls.dropWhile isIndented)) := by
  rw [progresses_continuation.many_eq_some_iff]
  constructor
  · induction ls with
    | nil => exact .nil
    | cons line ls ih =>
      obtain ⟨hline, hls⟩ := unbroken_cons.mp h
      by_cases hi : isIndented line = true
      · rw [List.takeWhile_cons_of_pos hi, List.dropWhile_cons_of_pos hi, List.map_cons]
        exact .cons (continuation_of_indented hline hi) (ih hls)
      · rw [List.takeWhile_cons_of_neg hi, List.dropWhile_cons_of_neg hi, List.map_nil]
        exact .nil
  · apply continuation_of_not_indented
    intro line hline
    have hnot := List.head?_dropWhile_not isIndented ls
    rw [Option.mem_def.mp hline] at hnot
    exact hnot

theorem rawField_of_opens (h : '\n'.toUInt8 ∉ line) (hls : Unbroken ls)
    (ho : Opens line name text) :
    rawField (line ++ continued ls) =
      some ((name, text ++ continued (ls.takeWhile isIndented)),
        continued (ls.dropWhile isIndented)) := by
  have htext : '\n'.toUInt8 ∉ text := by
    obtain ⟨margin, rfl, -⟩ := ho
    simp at h
    exact h.2.2.2
  rw [rawField, ho.bind_eq, bind_of_eq_some (lineText_eq htext),
    bind_of_eq_some (many_continuation hls)]
  rfl

theorem exists_append_of_continued {x rest : Bytes} (h : '\n'.toUInt8 ∉ x)
    (he : line ++ continued ls = x ++ rest) : ∃ text, line = x ++ text := by
  rcases List.append_eq_append_iff.mp he with ⟨y, rfl, hy⟩ | ⟨y, rfl, -⟩
  · cases y with
    | nil => exact ⟨[], by simp⟩
    | cons b y =>
      cases ls with
      | nil => cases hy
      | cons next ls =>
        obtain ⟨rfl, -⟩ := List.cons.inj hy
        simp at h
  · exact ⟨y, rfl⟩

theorem exists_opens_of_rawField {v : Bytes × Bytes} {rest : Bytes}
    (h : rawField (line ++ continued ls) = some (v, rest)) : ∃ name text, Opens line name text := by
  simp only [rawField, bind_eq_some, run_eq_some, byte_eq_some] at h
  obtain ⟨name, mid, ⟨hs, hne, hname, -⟩, margin, mid', hspan, -, mid'', rfl, -⟩ := h
  obtain ⟨rfl, hmargin⟩ := append_of_span hspan
  have hname' := fun b hb => isNameByte_iff.mp (hname b hb)
  have hmargin' := fun b hb => isMargin_iff.mp (hmargin b hb)
  have hfeed : '\n'.toUInt8 ∉ name ++ margin ++ [':'.toUInt8] := by
    simp only [List.mem_append, List.mem_singleton, not_or]
    refine ⟨⟨fun hb => ?_, fun hb => ?_⟩, by decide⟩
    · exact absurd (hname' _ hb).1 (by decide)
    · exact absurd (hmargin' _ hb) (by decide)
  rw [← List.append_assoc, List.append_cons] at hs
  obtain ⟨text, rfl⟩ := exists_append_of_continued hfeed hs
  exact ⟨name, text, margin, by simp, hne, hname', hmargin'⟩

theorem rawField_of_not_opens (h : ∀ name text, ¬ Opens line name text) :
    rawField (line ++ continued ls) = none := by
  cases hr : rawField (line ++ continued ls) with
  | none => rfl
  | some r =>
    obtain ⟨name, text, ho⟩ := exists_opens_of_rawField hr
    exact absurd ho (h name text)

theorem strayLine_eq (h : '\n'.toUInt8 ∉ line) (hne : line ++ continued ls ≠ []) :
    strayLine (line ++ continued ls) = some ((), joined ls) := by
  have hend : optional (byte '\n' : ByteParser Unit) (continued ls) =
      some (if ls = [] then none else some (), joined ls) := by
    cases ls with
    | nil => rfl
    | cons next ls =>
      rw [continued_cons, optional_of_eq_some (byte_cons _), joined_cons, if_neg (by simp)]
  cases line with
  | nil =>
    cases ls with
    | nil => exact absurd rfl hne
    | cons next ls =>
      have hrun : (run (!isLineFeed ·) : ByteParser Bytes) (continued (next :: ls)) = none := rfl
      rw [List.nil_append, strayLine, orElse_of_eq_none (bind_of_eq_none hrun), continued_cons,
        byte_cons, joined_cons]
  | cons b line =>
    have hrun : (run (!isLineFeed ·) : ByteParser Bytes) (b :: line ++ continued ls) =
        some (b :: line, continued ls) := by
      rw [run_eq_some]
      refine ⟨rfl, by simp, fun x hx => by simp [isLineFeed_eq_false h hx], ?_⟩
      cases ls with
      | nil =>
        rintro x ⟨⟩
      | cons next ls =>
        rintro x ⟨⟩
        rfl
    apply orElse_of_eq_some
    rw [bind_of_eq_some hrun, bind_of_eq_some hend]
    rfl

def entry : ByteParser (Option HeaderField) :=
  (do let field ← rawField; return some (ofRaw field)) <|> (do strayLine; return none)

theorem progresses_entry : Progresses entry := by
  have hfield : Progresses rawField :=
    (progresses_run _).bind fun _ => (shortens_span _).bind fun _ =>
      (progresses_byte _).shortens.bind fun _ => (shortens_span _).bind fun _ =>
        progresses_continuation.shortens.many.bind fun _ => shortens_pure _
  have hstray : Progresses strayLine :=
    ((progresses_run _).bind fun _ => (progresses_byte _).shortens.optional.bind fun _ =>
      shortens_pure _).orElse (progresses_byte _)
  exact (hfield.bind fun _ => shortens_pure _).orElse (hstray.bind fun _ => shortens_pure _)

theorem entry_of_opens (h : '\n'.toUInt8 ∉ line) (hls : Unbroken ls) (ho : Opens line name text) :
    entry (line ++ continued ls) =
      some (some (ofRaw (name, text ++ continued (ls.takeWhile isIndented))),
        continued (ls.dropWhile isIndented)) := by
  apply orElse_of_eq_some
  rw [bind_of_eq_some (rawField_of_opens h hls ho)]
  rfl

theorem entry_of_not_opens (h : '\n'.toUInt8 ∉ line) (hne : line ++ continued ls ≠ [])
    (ho : ∀ name text, ¬ Opens line name text) :
    entry (line ++ continued ls) = some (none, joined ls) := by
  rw [entry, orElse_of_eq_none (bind_of_eq_none (rawField_of_not_opens ho)),
    bind_of_eq_some (strayLine_eq h hne)]
  rfl

theorem makes_ofRaw (h : Opens line name text) :
    Makes (line :: more) (ofRaw (name, text ++ continued more)) := by
  have hname : Utf8.decodeLossy name = String.ofList (name.map fun b => Char.ofNat b.toNat) := by
    obtain ⟨margin, -, -, hname, -⟩ := h
    refine Utf8.decodeLossy_ascii fun b hb => ?_
    exact Nat.lt_of_le_of_lt (UInt8.le_iff_toNat_le.mp (hname b hb).2.1) (by decide)
  rw [ofRaw, hname, unfolded]
  have hmakes : Makes (line :: more) _ := .intro h
  rw [trim, String.toList_ofList] at hmakes
  exact hmakes

/-- The entries of a text, and the fields that they amount to. -/
def Reads (s : Bytes) (fs : List HeaderField) : Prop :=
  ∃ es, Many (fun s e rest => entry s = some (e, rest)) s es [] ∧ es.filterMap id = fs

theorem Reads.nil : Reads [] [] := ⟨[], .nil, rfl⟩

theorem Reads.field {f : HeaderField} {rest : Bytes}
    (h : entry s = some (some f, rest)) (hr : Reads rest fs) : Reads s (f :: fs) := by
  obtain ⟨es, hes, rfl⟩ := hr
  exact ⟨some f :: es, .cons h hes, rfl⟩

theorem Reads.stray {rest : Bytes} (h : entry s = some (none, rest)) (hr : Reads rest fs) :
    Reads s fs := by
  obtain ⟨es, hes, rfl⟩ := hr
  exact ⟨none :: es, .cons h hes, rfl⟩

theorem Reads.skip (h : '\n'.toUInt8 ∉ line)
    (ho : ∀ name text, ¬ Opens line name text) (hr : Reads (joined ls) fs) :
    Reads (line ++ continued ls) fs := by
  by_cases hne : line ++ continued ls = []
  · obtain ⟨rfl, hls⟩ := List.append_eq_nil_iff.mp hne
    cases ls with
    | nil => exact hr
    | cons next ls => cases hls
  · exact hr.stray (entry_of_not_opens h hne ho)

theorem Reads.continued (h : Reads (joined ls) fs) : Reads (continued ls) fs :=
  h.skip List.not_mem_nil fun _ _ => not_opens_nil

theorem exists_reads (h : Unbroken ls) :
    ∃ fs, Reads (joined ls) fs ∧ Fields (logicalLines ls) fs := by
  induction hn : ls.length using Nat.strongRecOn generalizing ls with
  | ind n ih =>
    cases ls with
    | nil => exact ⟨[], .nil, .nil⟩
    | cons line ls =>
      obtain ⟨hline, hls⟩ := unbroken_cons.mp h
      rw [List.length_cons] at hn
      rw [joined_cons]
      by_cases ho : ∃ name text, Opens line name text
      · obtain ⟨name, text, ho⟩ := ho
        have hsuf : ls.dropWhile isIndented <:+ ls := List.dropWhile_suffix _
        have hle := hsuf.length_le
        obtain ⟨fs, hr, hf⟩ := ih _ (by omega) (fun l hl => hls l (hsuf.subset hl)) rfl
        rw [logicalLines_dropWhile] at hf
        rw [logicalLines_of_not_indented ho.not_indented]
        exact ⟨_, hr.continued.field (entry_of_opens hline hls ho), .field (makes_ofRaw ho) hf⟩
      · have ho : ∀ name text, ¬ Opens line name text := fun name text h => ho ⟨name, text, h⟩
        obtain ⟨fs, hr, hf⟩ := ih _ (by omega) hls rfl
        exact ⟨fs, hr.skip hline ho, fields_skip ho hf⟩

theorem Reads.parseBlock_eq (h : Reads (block s) fs) : parseBlock s = fs := by
  obtain ⟨es, hes, rfl⟩ := h
  have hentries : entries (block s) = some (es, []) :=
    progresses_entry.many_eq_some_iff.mpr ⟨hes, rfl⟩
  rw [parseBlock, hentries]

theorem fields_parseBlock (s : Bytes) : Fields (logicalLines (headerLines s)) (parseBlock s) := by
  have hls := unbroken_headerLines s
  have hblock := block_joined (unbroken_lines s)
  rw [joined_lines, ← headerLines] at hblock
  obtain ⟨fs, hr, hf⟩ := exists_reads hls
  rcases hblock with hblock | hblock
  · rw [← hblock] at hr
    rw [hr.parseBlock_eq]
    exact hf
  · -- The line feed at the end of the block makes one more line, which is empty.
    have hls' : Unbroken (headerLines s ++ [[]]) := by
      intro line hline
      rcases List.mem_append.mp hline with hline | hline
      · exact hls line hline
      · rw [List.mem_singleton.mp hline]
        exact List.not_mem_nil
    obtain ⟨gs, hr', hg⟩ := exists_reads hls'
    rw [logicalLines_append_empty] at hg
    have hf' : Fields (logicalLines (headerLines s) ++ [[[]]]) fs :=
      hf.append_other (not_makes fun _ _ => not_opens_nil)
    rw [← hblock] at hr'
    rw [hr'.parseBlock_eq, hg.unique hf']
    exact hf

/-- The fields of a text are those that the logical lines before its first blank line make. -/
theorem parseBlock_eq_iff_fields (s : Bytes) (fs : List HeaderField) :
    parseBlock s = fs ↔ Fields (logicalLines (headerLines s)) fs := by
  constructor
  · rintro rfl
    exact fields_parseBlock s
  · exact (fields_parseBlock s).unique

end MailSearch.HeaderField
