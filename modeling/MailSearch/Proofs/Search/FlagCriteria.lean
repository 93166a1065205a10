import MailSearch.Needle.Weight
import MailSearch.Proofs.Message.Flags
import MailSearch.Proofs.Search.Outcome

/-! # Flags asked for and flags set

A criterion that names a flag, or asks for a system flag by a key of its own, finds the messages
that were given a name of this flag, in whatever spelling.
-/

namespace MailSearch

namespace SystemFlag

def presentKey : SystemFlag → SearchKey
  | answered => .answered
  | deleted => .deleted
  | draft => .draft
  | flagged => .flagged
  | recent => .recent
  | seen => .seen

def absentKey : SystemFlag → SearchKey
  | answered => .unanswered
  | deleted => .undeleted
  | draft => .undraft
  | flagged => .unflagged
  | recent => .old
  | seen => .unseen

end SystemFlag

variable {m : Message} {names : List String} {token name : String} {flag : Flag} {f : SystemFlag}
  {strictness : Strictness}

theorem Term.holds_flagIs_present :
    (flagIs flag true).holds m = true ↔ m.hasFlag flag = true := holds_flagIs

theorem Term.holds_flagIs_absent :
    (flagIs flag false).holds m = true ↔ ¬ (flagIs flag true).holds m = true := by
  rw [holds_flagIs, holds_flagIs_present, Bool.not_eq_true]

section

variable [MatcherLimit]

theorem compile_present (hk : lowerAscii f.presentKey.name = lowerAscii token) :
    compile strictness [token] = .ok (.flagIs (.system f) true) := by
  have hcount : ([] : List String).length = f.presentKey.parameterCount := by cases f <;> rfl
  rw [compile_criterion hk hcount]
  cases f <;> rfl

theorem compile_absent (hk : lowerAscii f.absentKey.name = lowerAscii token) :
    compile strictness [token] = .ok (.flagIs (.system f) false) := by
  have hcount : ([] : List String).length = f.absentKey.parameterCount := by cases f <;> rfl
  rw [compile_criterion hk hcount]
  cases f <;> rfl

theorem compile_new (hk : lowerAscii SearchKey.new.name = lowerAscii token) :
    compile strictness [token] =
      .ok (.and (.flagIs (.system .recent) true) (.flagIs (.system .seen) false)) :=
  compile_criterion hk rfl

theorem compile_keyword (hk : lowerAscii SearchKey.keyword.name = lowerAscii token)
    (hname : Flag.ofName? name = some flag) :
    compile strictness [token, name] = .ok (.flagIs flag true) := by
  rw [compile_criterion hk rfl]
  change Criterion.keywordTest name _ = _
  rw [Criterion.keywordTest, hname]

theorem compile_unkeyword (hk : lowerAscii SearchKey.unkeyword.name = lowerAscii token)
    (hname : Flag.ofName? name = some flag) :
    compile strictness [token, name] = .ok (.flagIs flag false) := by
  rw [compile_criterion hk rfl]
  change Criterion.keywordTest name _ = _
  rw [Criterion.keywordTest, hname]

/-- A criterion about a flag comes down to the names that the message was given its flags by. -/
theorem flags_found_as_set (h : m.FlaggedBy names) (strictness : Strictness) :
    (∀ name flag token untoken, Flag.ofName? name = some flag →
      lowerAscii SearchKey.keyword.name = lowerAscii token →
      lowerAscii SearchKey.unkeyword.name = lowerAscii untoken →
      ∃ t u, compile strictness [token, name] = .ok t ∧
        compile strictness [untoken, name] = .ok u ∧
        (t.holds m = true ↔ ∃ n ∈ names, Flag.ofName? n = Flag.ofName? name) ∧
        (u.holds m = true ↔ ¬ t.holds m = true)) ∧
    (∀ (f : SystemFlag) token untoken, lowerAscii f.presentKey.name = lowerAscii token →
      lowerAscii f.absentKey.name = lowerAscii untoken →
      ∃ t u, compile strictness [token] = .ok t ∧ compile strictness [untoken] = .ok u ∧
        (t.holds m = true ↔ ∃ n ∈ names, Flag.ofName? n = some (.system f)) ∧
        (u.holds m = true ↔ ¬ t.holds m = true) ∧
        (t.holds m = true ↔ m.flags.systemBits &&& f.bit ≠ 0)) ∧
    (∀ token, lowerAscii SearchKey.new.name = lowerAscii token →
      ∃ t, compile strictness [token] = .ok t ∧
        (t.holds m = true ↔ (∃ n ∈ names, Flag.ofName? n = some (.system .recent)) ∧
          ¬ ∃ n ∈ names, Flag.ofName? n = some (.system .seen))) ∧
    (∀ (m' : Message) names', m'.FlaggedBy names' → (∀ name, name ∈ names' ↔ name ∈ names) →
      (∀ flag, m'.hasFlag flag = m.hasFlag flag) ∧ m'.flags.systemBits = m.flags.systemBits) ∧
    ∀ k, (∀ flag, flag ≠ .keyword k → (m.setFlag (.keyword k)).hasFlag flag = m.hasFlag flag) ∧
      (m.setFlag (.keyword k)).flags.systemBits = m.flags.systemBits := by
  refine ⟨?_, ?_, ?_, ?_, ?_⟩
  · intro name flag token untoken hname hk hk'
    refine ⟨_, _, compile_keyword hk hname, compile_unkeyword hk' hname, ?_,
      Term.holds_flagIs_absent⟩
    rw [Term.holds_flagIs_present, h.hasFlag_iff_exists, hname]
  · intro f token untoken hk hk'
    refine ⟨_, _, compile_present hk, compile_absent hk', ?_, Term.holds_flagIs_absent, ?_⟩
    · rw [Term.holds_flagIs_present, h.hasFlag_iff_exists]
    · rw [Term.holds_flagIs_present, Message.systemBits_iff]
  · intro token hk
    refine ⟨_, compile_new hk, ?_⟩
    rw [Term.holds_and, Bool.and_eq_true, Term.holds_flagIs_absent, Term.holds_flagIs_present,
      Term.holds_flagIs_present, h.hasFlag_iff_exists, h.hasFlag_iff_exists]
  · intro m' names' h' hnames
    have hflags : ∀ flag, m'.hasFlag flag = m.hasFlag flag := fun _ => h.hasFlag_congr h' hnames
    exact ⟨hflags, Flags.systemBits_congr h.systemBits_lt h'.systemBits_lt fun f =>
      hflags (.system f)⟩
  · exact fun k => ⟨fun flag => Message.hasFlag_setFlag_of_ne, rfl⟩

end

/-- Two names of one system flag, and a keyword that looks like another. -/
theorem flags_found_as_set_spellings :
    ∃ (m : Message) (t u : Term), m.FlaggedBy [" \\SEEN", "seen", "Re\\cent"] ∧
      compile ⟨true, true⟩ ["keyword", "Seen "] = .ok t ∧ t.holds m = true ∧
      compile ⟨true, true⟩ ["old"] = .ok u ∧ u.holds m = true := by
  have hseen : Flag.ofName? " \\SEEN" = some (.system .seen) := by decide +kernel
  have hseen' : Flag.ofName? "seen" = some (.system .seen) := by decide +kernel
  have hkeyword : Flag.ofName? "Re\\cent" = some (.keyword "Re\\cent") := by decide +kernel
  have h := Message.FlaggedBy.setFlag hkeyword
    (.setFlag hseen' (.addField ⟨"Subject", "\\Recent"⟩ (.setFlag hseen .empty)))
  obtain ⟨hnamed, hsystem, -⟩ := flags_found_as_set h ⟨true, true⟩
  obtain ⟨t, -, ht, -, hholds, -⟩ := hnamed "Seen " (.system .seen) "keyword" "unkeyword"
    (by decide +kernel) (by decide +kernel) (by decide +kernel)
  obtain ⟨t', u, -, hu, hpresent, habsent, -⟩ := hsystem .recent "recent" "old"
    (by decide +kernel) (by decide +kernel)
  refine ⟨_, t, u, h, ht, hholds.mpr ?_, hu, habsent.mpr fun h' => ?_⟩
  · exact ⟨"seen", by simp, by decide +kernel⟩
  · have hnone : ∀ n ∈ [" \\SEEN", "seen", "Re\\cent"],
        Flag.ofName? n ≠ some (.system .recent) := by decide +kernel
    obtain ⟨n, hn, he⟩ := hpresent.mp h'
    exact hnone n hn he

end MailSearch
