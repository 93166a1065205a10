import MailSearch.Proofs.Address.Mailboxes
import MailSearch.Proofs.Address.Nesting

/-! # The guard against deep comments

A look at the parentheses of a text is taken before it is read. It knows quoted text but not domain
literals: where one has a quotation mark or an opening parenthesis in it, the guard and the grammar
part, and comments may nest to any depth behind it.
-/

namespace MailSearch.Address

open MailSearch.Parser Grammar Place

variable {p : Place} {b : UInt8} {s : Bytes}

/-- A quotation mark or an opening parenthesis in a domain literal misleads the guard. -/
def Place.misleads (p : Place) (b : UInt8) : Bool :=
  p.closer == some ']'.toUInt8 && !p.escaped && isOneOf ['"', '('] b

def harmless : Place → Bytes → Bool
  | _, [] => true
  | p, b :: s => !p.misleads b && harmless (p.next b) s

/-- The places that a scan comes to. -/
inductive Place.Regular : Place → Prop
  | outside (depth : Nat) (escaped : Bool) : Regular ⟨depth, none, escaped⟩
  | quoted (escaped : Bool) : Regular ⟨0, some '"'.toUInt8, escaped⟩
  | literal (escaped : Bool) : Regular ⟨0, some ']'.toUInt8, escaped⟩

theorem Place.Regular.next (h : p.Regular) (b : UInt8) : (p.next b).Regular := by
  cases h with
  | outside d e =>
    unfold Place.next
    dsimp only
    split
    · exact .outside d false
    · split
      · exact .outside d true
      · split
        · exact .outside _ e
        · split
          · split <;> exact .outside _ e
          · rename_i hd
            obtain rfl : d = 0 := Nat.eq_zero_of_not_pos hd
            split
            · exact .quoted e
            · split
              · exact .literal e
              · exact .outside 0 e
  | quoted e =>
    unfold Place.next
    dsimp only
    split
    · exact .quoted false
    · split
      · exact .quoted true
      · split
        · exact .outside 0 e
        · exact .quoted e
  | literal e =>
    unfold Place.next
    dsimp only
    split
    · exact .literal false
    · split
      · exact .literal true
      · split
        · exact .outside 0 e
        · exact .literal e

def guardFrom (limit : Nat) (p : Place) (s : Bytes) : Bool :=
  shallow limit p.depth (p.closer == some '"'.toUInt8) p.escaped s

theorem marks_eq :
    '('.toUInt8 = 40 ∧ ')'.toUInt8 = 41 ∧ '"'.toUInt8 = 34 ∧ '\\'.toUInt8 = 92 ∧ '['.toUInt8 = 91 ∧
      ']'.toUInt8 = 93 := by
  decide

theorem guardFrom_cons {limit : Nat} (hp : p.Regular) (hle : p.depth ≤ limit)
    (hb : p.misleads b = false) :
    guardFrom limit p (b :: s) = true ↔
      (p.next b).depth ≤ limit ∧ guardFrom limit (p.next b) s = true := by
  obtain ⟨hopen, hclose, hquote, hpair, hleft, hright⟩ := marks_eq
  change shallow limit p.depth _ p.escaped (b :: s) = true ↔ _
  rw [shallow]
  unfold guardFrom Place.next
  unfold Place.misleads at hb
  simp only [isOneOf, List.any_cons, List.any_nil, hopen, hclose, hquote, hpair, hleft, hright]
    at hb ⊢
  cases hp with
  | outside d e =>
    dsimp only at hle
    cases e with
    | true => simp [hle]
    | false =>
      by_cases h92 : b = 92
      · simp [h92, hle]
      · by_cases h40 : b = 40
        · by_cases hdeep : limit < d + 1
          · simp [h40, hdeep, Nat.not_le.mpr hdeep]
          · simp [h40, hdeep, Nat.not_lt.mp hdeep]
        · rcases Nat.eq_zero_or_pos d with rfl | hd
          · by_cases h34 : b = 34
            · simp [h34]
            · by_cases h91 : b = 91 <;> simp [h92, h40, h34, h91]
          · have hne : d ≠ 0 := Nat.ne_of_gt hd
            have hlt : d ≤ limit + 1 := Nat.le_succ_of_le hle
            by_cases h41 : b = 41 <;> simp [h92, h40, h41, hd, hne, hle, hlt]
  | quoted e =>
    rw [hquote]
    cases e with
    | true => simp
    | false =>
      by_cases h92 : b = 92
      · simp [h92]
      · by_cases h34 : b = 34
        · simp [h34]
        · have hstay : (b != 34) = true := bne_iff_ne.mpr h34
          simp [h92, h34, hstay]
  | literal e =>
    rw [hright] at hb ⊢
    cases e with
    | true => simp
    | false =>
      obtain ⟨h34, h40⟩ : ¬34 = b ∧ ¬40 = b := by simpa using hb
      by_cases h92 : b = 92
      · simp [h92]
      · by_cases h93 : b = 93
        · simp [h93]
        · simp [h92, h93, Ne.symm h34, Ne.symm h40]

/-- On a harmless text the guard lets through what nests within its limit. -/
theorem guardFrom_iff {limit : Nat} (hp : p.Regular) (hle : p.depth ≤ limit)
    (hs : harmless p s = true) : guardFrom limit p s = true ↔ deepest p s ≤ limit := by
  induction s generalizing p with
  | nil => exact iff_of_true rfl hle
  | cons b s ih =>
    obtain ⟨hb, hs⟩ := Bool.and_eq_true_iff.mp hs
    rw [guardFrom_cons hp hle (Bool.not_eq_true' _ ▸ hb), deepest, Nat.max_le]
    constructor
    · rintro ⟨hnext, hguard⟩
      exact ⟨hle, (ih (hp.next b) hnext hs).mp hguard⟩
    · rintro ⟨-, hdeep⟩
      have hnext := Nat.le_trans (depth_le_deepest _ s) hdeep
      exact ⟨hnext, (ih (hp.next b) hnext hs).mpr hdeep⟩

theorem commentsShallow_iff (hs : harmless (inside 0) s = true) :
    commentsShallow s = true ↔ deepest (inside 0) s ≤ commentLimit :=
  guardFrom_iff (.outside 0 false) (Nat.zero_le _) hs

/-- An accepted text stays within the limit if and only if the scan does, as it does where nothing
misleads the guard. -/
theorem nesting_of_guarded (h : commentsShallow s = true) :
    (deepest (inside 0) s ≤ commentLimit →
      mailboxNesting s ≤ commentLimit ∧ listNesting s ≤ commentLimit) ∧
    ((Mailbox.parse? s).isSome = true →
      (mailboxNesting s ≤ commentLimit ↔ deepest (inside 0) s ≤ commentLimit)) ∧
    ((parseAddresses? s).isSome = true →
      (listNesting s ≤ commentLimit ↔ deepest (inside 0) s ≤ commentLimit)) ∧
    (harmless (inside 0) s = true → deepest (inside 0) s ≤ commentLimit) := by
  refine ⟨?_, ?_, ?_, ?_⟩
  · intro hdeep
    constructor
    · exact Nat.le_trans (tracks_mailboxRule.depth_le s) hdeep
    · exact Nat.le_trans ((tracks_listOf tracks_addressRule).depth_le s) hdeep
  · intro hs
    rw [Mailbox.parse?, if_pos h] at hs
    rw [mailboxNesting, tracks_mailboxRule.depth_eq hs]
  · intro hs
    rw [parseAddresses?, if_pos h] at hs
    rw [listNesting, (tracks_listOf tracks_addressRule).depth_eq hs]
  · intro hs
    exact (commentsShallow_iff hs).mp h

theorem nesting_of_guarded_folded :
    commentsShallow (Utf8.encode "a (b \\) (c)) @[d]\r\n (\"(\")") = true ∧
      harmless (inside 0) (Utf8.encode "a (b \\) (c)) @[d]\r\n (\"(\")") = true ∧
      mailboxNesting (Utf8.encode "a (b \\) (c)) @[d]\r\n (\"(\")") ≤ commentLimit := by
  have hguard : commentsShallow (Utf8.encode "a (b \\) (c)) @[d]\r\n (\"(\")") = true := by
    decide +kernel
  have hharmless : harmless (inside 0) (Utf8.encode "a (b \\) (c)) @[d]\r\n (\"(\")") = true := by
    decide +kernel
  obtain ⟨hnesting, -, -, hdeep⟩ := nesting_of_guarded hguard
  exact ⟨hguard, hharmless, (hnesting (hdeep hharmless)).1⟩

def disguised (n : Nat) : Bytes :=
  ['a', '@', '[', '"', ']'].map Char.toUInt8 ++
    (List.replicate n '('.toUInt8 ++ List.replicate n ')'.toUInt8)

theorem shallow_append_quoted {limit depth : Nat} {v : Bytes}
    (hv : ∀ b ∈ v, b ≠ '"'.toUInt8 ∧ b ≠ '\\'.toUInt8) :
    shallow limit depth true false (v ++ s) = shallow limit depth true false s := by
  induction v with
  | nil => rfl
  | cons b v ih =>
    obtain ⟨⟨hquote, hpair⟩, hv⟩ := List.forall_mem_cons.mp hv
    have hstay : (b != '"'.toUInt8) = true := by simpa using hquote
    rw [List.cons_append, shallow, if_neg Bool.false_ne_true, if_neg hpair, if_pos rfl, hstay,
      ih hv]

theorem shallow_of_quoted {limit depth : Nat} (hs : ∀ b ∈ s, b ≠ '"'.toUInt8 ∧ b ≠ '\\'.toUInt8) :
    shallow limit depth true false s = true := by
  rw [← List.append_nil s, shallow_append_quoted hs]
  rfl

theorem commentBody_replicate (n : Nat) (rest : Bytes) :
    CommentBody (List.replicate n '('.toUInt8 ++ List.replicate (n + 1) ')'.toUInt8 ++ rest)
      rest := by
  induction n generalizing rest with
  | zero => exact .close
  | succ n ih =>
    have h := CommentBody.comment (ih (')'.toUInt8 :: rest)) .close
    rw [List.replicate_succ' (n := n + 1)]
    simpa [List.replicate_succ] using h

theorem filler_replicate (n : Nat) :
    Filler (List.replicate n '('.toUInt8 ++ List.replicate n ')'.toUInt8) [] := by
  cases n with
  | zero => exact .nil
  | succ n =>
    have h := commentBody_replicate n []
    rw [List.append_nil] at h
    exact .comment h .nil

theorem deepest_open (n k : Nat) (s : Bytes) :
    deepest (inside k) (List.replicate n '('.toUInt8 ++ s) = deepest (inside (k + n)) s := by
  induction n generalizing k with
  | zero => rfl
  | succ n ih =>
    have hdepth : k + n + 1 ≤ deepest (inside (k + n + 1)) s :=
      depth_le_deepest (inside (k + n + 1)) s
    have hstep : deepest (inside k) ('('.toUInt8 :: (List.replicate n '('.toUInt8 ++ s)) =
        max k (deepest (inside (k + 1)) (List.replicate n '('.toUInt8 ++ s)) := rfl
    rw [List.replicate_succ, List.cons_append, hstep, ih, Nat.add_right_comm k 1 n,
      Nat.max_eq_right (by omega)]
    rfl

theorem deepest_close (n : Nat) :
    deepest (inside n) (List.replicate n ')'.toUInt8) = n := by
  induction n with
  | zero => rfl
  | succ n ih =>
    have hstep : deepest (inside (n + 1)) (')'.toUInt8 :: List.replicate n ')'.toUInt8) =
        max (n + 1) (deepest (inside n) (List.replicate n ')'.toUInt8)) := rfl
    rw [List.replicate_succ, hstep, ih, Nat.max_eq_left (Nat.le_succ n)]

theorem commentsShallow_disguised (n : Nat) : commentsShallow (disguised n) = true := by
  change shallow commentLimit 0 true false (']'.toUInt8 ::
    (List.replicate n '('.toUInt8 ++ List.replicate n ')'.toUInt8)) = true
  apply shallow_of_quoted
  intro b hb
  rcases List.mem_cons.mp hb with rfl | hb
  · decide
  · rcases List.mem_append.mp hb with hb | hb
    · rw [List.eq_of_mem_replicate hb]
      decide
    · rw [List.eq_of_mem_replicate hb]
      decide

theorem mailbox_disguised (n : Nat) :
    Grammar.Mailbox (disguised n)
      ⟨[], ⟨[['a'.toUInt8]], [['['.toUInt8, '"'.toUInt8, ']'.toUInt8]]⟩⟩ [] := by
  refine .bare ⟨_, _, ⟨_, [], _, rfl, .inl ⟨_, _, .nil, ⟨rfl, by simp, ?_, ?_⟩, .nil⟩, .nil⟩, rfl,
    .inr ⟨_, _, ['"'.toUInt8], .nil, .text (by decide) .nil, filler_replicate n, rfl⟩⟩
  · intro b hb
    rw [List.mem_singleton.mp hb]
    decide
  · rintro b ⟨⟩
    decide

theorem deepest_disguised (n : Nat) : deepest (inside 0) (disguised n) = n := by
  have hstart : deepest (inside 0) (disguised n) =
      max 0 (max 0 (max 0 (max 0 (max 0 (deepest (inside 0)
        (List.replicate n '('.toUInt8 ++ List.replicate n ')'.toUInt8)))))) := rfl
  rw [hstart, deepest_open, Nat.zero_add, deepest_close]
  simp only [Nat.zero_max]

/-- Behind a quotation mark in a domain literal comments of any depth are accepted. -/
theorem disguised_nesting (n : Nat) :
    commentsShallow (disguised n) = true ∧ (Mailbox.parse? (disguised n)).isSome = true ∧
      mailboxNesting (disguised n) = n := by
  have hguard := commentsShallow_disguised n
  have hread : parseAll mailboxRule (disguised n) = some _ :=
    (reads_mailboxRule.parseAll_eq_some leads_mailboxRule (avoids_nil _)).mpr (mailbox_disguised n)
  have haccepted : (parseAll mailboxRule (disguised n)).isSome = true := by
    rw [hread]
    rfl
  refine ⟨hguard, ?_, ?_⟩
  · rwa [Mailbox.parse?, if_pos hguard]
  · rw [mailboxNesting, tracks_mailboxRule.depth_eq haccepted, deepest_disguised]

theorem nesting_unguarded :
    ¬ ∀ s, commentsShallow s = true →
      mailboxNesting s ≤ commentLimit ∧ listNesting s ≤ commentLimit := by
  intro h
  obtain ⟨hguard, -, hnesting⟩ := disguised_nesting 65
  have hle := (h _ hguard).1
  rw [hnesting] at hle
  exact absurd hle (by decide)

end MailSearch.Address
