import MailSearch.Header
import MailSearch.Proofs.Parser.Laws

/-! # The lines of a message

A text is cut into lines at its line feeds. The header block is what stands before the first blank
line. A logical line is a line that is not indented, with the indented ones right after it.
-/

namespace MailSearch.HeaderField

def lines (s : Bytes) : List Bytes := s.splitOn '\n'.toUInt8

def isBlankLine (line : Bytes) : Bool := line == [] || line == ['\r'.toUInt8]

def headerLines (s : Bytes) : List Bytes := (lines s).takeWhile (!isBlankLine ·)

def isIndented (line : Bytes) : Bool :=
  line.head? == some ' '.toUInt8 || line.head? == some '\t'.toUInt8

/-- Indented lines with nothing before them that they could continue belong to no logical line. -/
def logicalLines : List Bytes → List (List Bytes)
  | [] => []
  | line :: others =>
    if isIndented line then logicalLines others
    else (line :: others.takeWhile isIndented) :: logicalLines others

def continued (ls : List Bytes) : Bytes := ls.flatMap ('\n'.toUInt8 :: ·)

def joined (ls : List Bytes) : Bytes := ['\n'.toUInt8].intercalate ls

def Unbroken (ls : List Bytes) : Prop := ∀ line ∈ ls, '\n'.toUInt8 ∉ line

variable {s line : Bytes} {ls more : List Bytes} {b : UInt8}

@[simp] theorem continued_nil : continued [] = [] := rfl

@[simp] theorem continued_cons :
    continued (line :: ls) = '\n'.toUInt8 :: (line ++ continued ls) := rfl

theorem joined_cons : joined (line :: ls) = line ++ continued ls := by
  induction ls generalizing line with
  | nil => simp [joined]
  | cons next ls ih =>
    rw [joined, List.intercalate_cons_cons, ← joined, ih]
    simp

theorem drop_one_continued (ls : List Bytes) : (continued ls).drop 1 = joined ls := by
  cases ls with
  | nil => rfl
  | cons next ls => rw [joined_cons, continued_cons, List.drop_succ_cons, List.drop_zero]

theorem unbroken_cons : Unbroken (line :: ls) ↔ '\n'.toUInt8 ∉ line ∧ Unbroken ls :=
  List.forall_mem_cons

theorem lines_append (h : '\n'.toUInt8 ∉ line) :
    lines (line ++ '\n'.toUInt8 :: s) = line :: lines s :=
  List.splitOn_append_cons_self_of_not_mem h s

theorem lines_cons (b : UInt8) (s : Bytes) : lines (b :: s) =
    if b == '\n'.toUInt8 then [] :: lines s else (lines s).modifyHead (b :: ·) :=
  List.splitOn_cons_eq_if_modifyHead b s

theorem joined_lines (s : Bytes) : joined (lines s) = s := List.intercalate_splitOn _

theorem unbroken_lines (s : Bytes) : Unbroken (lines s) := by
  induction s with
  | nil => simp [Unbroken, lines]
  | cons b s ih =>
    rw [lines_cons]
    split
    · exact unbroken_cons.mpr ⟨List.not_mem_nil, ih⟩
    · rename_i hb
      cases hs : lines s with
      | nil => simp [Unbroken]
      | cons line ls =>
        rw [hs, unbroken_cons] at ih
        rw [List.modifyHead_cons, unbroken_cons, List.mem_cons, not_or]
        exact ⟨⟨fun he => hb (by simp [he]), ih.1⟩, ih.2⟩

theorem isBlankLine_of_indented (h : isIndented line = true) : isBlankLine line = false := by
  match line with
  | [] => cases h
  | [b] =>
    simp only [isIndented, List.head?_cons, Bool.or_eq_true, beq_iff_eq, Option.some.injEq] at h
    rcases h with rfl | rfl <;> rfl
  | b :: c :: line => simp [isBlankLine]

theorem unbroken_headerLines (s : Bytes) : Unbroken (headerLines s) := by
  intro line hline
  exact unbroken_lines s line ((List.takeWhile_sublist _).subset hline)

theorem headerLines_of_blank (h : '\n'.toUInt8 ∉ line) (hb : isBlankLine line = true) :
    headerLines (line ++ '\n'.toUInt8 :: s) = [] := by
  rw [headerLines, lines_append h, List.takeWhile_cons_of_neg (by simp [hb])]

theorem headerLines_continued (h : Unbroken (line :: more))
    (hb : ∀ l ∈ line :: more, isBlankLine l = false) :
    headerLines (line ++ continued more ++ '\n'.toUInt8 :: s) = line :: more ++ headerLines s := by
  induction more generalizing line with
  | nil =>
    obtain ⟨hline, -⟩ := unbroken_cons.mp h
    have hblank := hb line List.mem_cons_self
    rw [continued_nil, List.append_nil, headerLines, lines_append hline,
      List.takeWhile_cons_of_pos (by simp [hblank])]
    rfl
  | cons next more ih =>
    obtain ⟨hline, hmore⟩ := unbroken_cons.mp h
    have hblank := hb line List.mem_cons_self
    have ih := ih hmore fun l hl => hb l (List.mem_cons_of_mem line hl)
    rw [continued_cons, List.append_assoc, List.cons_append, headerLines, lines_append hline,
      List.takeWhile_cons_of_pos (by simp [hblank]), ← headerLines, ih]
    rfl

theorem logicalLines_of_indented (h : isIndented line = true) :
    logicalLines (line :: ls) = logicalLines ls := by
  rw [logicalLines, if_pos h]

theorem logicalLines_of_not_indented (h : isIndented line = false) :
    logicalLines (line :: ls) = (line :: ls.takeWhile isIndented) :: logicalLines ls := by
  rw [logicalLines, if_neg (ne_true_of_eq_false h)]

theorem logicalLines_dropWhile (ls : List Bytes) :
    logicalLines (ls.dropWhile isIndented) = logicalLines ls := by
  induction ls with
  | nil => rfl
  | cons line ls ih =>
    by_cases h : isIndented line = true
    · rw [List.dropWhile_cons_of_pos h, logicalLines_of_indented h, ih]
    · rw [List.dropWhile_cons_of_neg h]

theorem logicalLines_cons_append (h : isIndented line = false)
    (hmore : ∀ l ∈ more, isIndented l = true) (hrest : ∀ l ∈ ls.head?, isIndented l = false) :
    logicalLines (line :: more ++ ls) = (line :: more) :: logicalLines ls := by
  obtain ⟨htake, hdrop⟩ := Parser.span_append hmore hrest
  have hlines := logicalLines_dropWhile (more ++ ls)
  rw [hdrop] at hlines
  rw [List.cons_append, logicalLines_of_not_indented h, htake, hlines]

theorem logicalLines_append_empty (ls : List Bytes) :
    logicalLines (ls ++ [[]]) = logicalLines ls ++ [[[]]] := by
  induction ls with
  | nil => rfl
  | cons line ls ih =>
    have hrun : (ls ++ [[]]).takeWhile isIndented = ls.takeWhile isIndented := by
      rw [List.takeWhile_append]
      split
      · rename_i hlen
        rw [List.takeWhile_cons_of_neg (by decide), List.append_nil]
        exact (List.takeWhile_prefix _).eq_of_length hlen |>.symm
      · rfl
    rw [List.cons_append, logicalLines, logicalLines, ih, hrun]
    split
    · rfl
    · rfl

theorem isIndented_cons : isIndented (b :: line) = isMargin b := by
  simp [isIndented, isMargin]

theorem isLineFeed_eq_false (h : '\n'.toUInt8 ∉ line) (hb : b ∈ line) : isLineFeed b = false := by
  rw [isLineFeed, beq_eq_false_iff_ne]
  rintro rfl
  exact h hb

theorem span_line (h : '\n'.toUInt8 ∉ line) :
    (line ++ continued ls).takeWhile (!isLineFeed ·) = line ∧
      (line ++ continued ls).dropWhile (!isLineFeed ·) = continued ls := by
  have hline : ∀ b ∈ line, (!isLineFeed b) = true := fun b hb => by
    rw [isLineFeed_eq_false h hb]
    rfl
  apply Parser.span_append hline
  cases ls with
  | nil =>
    rintro b ⟨⟩
  | cons next ls =>
    rintro b ⟨⟩
    rfl

theorem startsBlankLine_eq (h : '\n'.toUInt8 ∉ line) :
    startsBlankLine (line ++ continued ls) = isBlankLine line := by
  match line with
  | [] => cases ls <;> rfl
  | [b] =>
    have hlf := isLineFeed_eq_false h (List.mem_singleton_self b)
    by_cases hcr : b = '\r'.toUInt8
    · subst hcr
      cases ls <;> rfl
    · simp [startsBlankLine, isBlankLine, hcr, hlf]
  | b :: c :: line =>
    have hb := isLineFeed_eq_false h (List.mem_cons_self (a := b))
    have hc := isLineFeed_eq_false h (List.mem_cons_of_mem b List.mem_cons_self)
    by_cases hcr : b = '\r'.toUInt8
    · simp [startsBlankLine, isBlankLine, hcr, hc]
    · simp [startsBlankLine, isBlankLine, hcr, hb]

theorem block_nil : block [] = [] := by
  rw [block, if_pos (show startsBlankLine [] = true from rfl)]

theorem block_of_blank (h : '\n'.toUInt8 ∉ line) (hblank : isBlankLine line = true) :
    block (joined (line :: ls)) = [] := by
  rw [joined_cons, block, startsBlankLine_eq h, if_pos hblank]

theorem block_of_not_blank (h : '\n'.toUInt8 ∉ line) (hblank : isBlankLine line = false) :
    block (joined (line :: ls)) = line ++ (continued ls).take 1 ++ block (joined ls) := by
  rw [joined_cons, block, startsBlankLine_eq h, if_neg (ne_true_of_eq_false hblank)]
  simp only [(span_line h).1, (span_line h).2, drop_one_continued]

theorem block_joined (h : Unbroken ls) :
    block (joined ls) = joined (ls.takeWhile (!isBlankLine ·)) ∨
      block (joined ls) = joined (ls.takeWhile (!isBlankLine ·) ++ [[]]) := by
  induction ls with
  | nil => exact .inl block_nil
  | cons line ls ih =>
    obtain ⟨hline, hls⟩ := unbroken_cons.mp h
    by_cases hblank : isBlankLine line = true
    · rw [block_of_blank hline hblank, List.takeWhile_cons_of_neg (by simp [hblank])]
      exact .inl rfl
    have hblank := eq_false_of_ne_true hblank
    rw [List.takeWhile_cons_of_pos (by simp [hblank]), block_of_not_blank hline hblank]
    cases ls with
    | nil => exact .inl (by simp [joined, block_nil])
    | cons next ls =>
      have hjoin : ∀ {ms : List Bytes}, ms ≠ [] →
          line ++ ['\n'.toUInt8] ++ joined ms = joined (line :: ms) := by
        intro ms hne
        obtain ⟨m, ms, rfl⟩ := List.exists_cons_of_ne_nil hne
        simp [joined_cons]
      have hfeed : (continued (next :: ls)).take 1 = ['\n'.toUInt8] := rfl
      rw [hfeed]
      rcases ih hls with he | he <;> rw [he]
      · cases hend : (next :: ls).takeWhile (!isBlankLine ·) with
        | nil => exact .inr (by simp [joined])
        | cons m ms => exact .inl (hjoin (List.cons_ne_nil m ms))
      · exact .inr (hjoin (by simp))

end MailSearch.HeaderField
