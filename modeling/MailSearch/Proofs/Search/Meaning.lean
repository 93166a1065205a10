import MailSearch.Proofs.Search.Building
import MailSearch.Proofs.UidSet.Runs
import MailSearch.Search

/-! # What criteria ask of a message

`Satisfies` says for every key when a message meets a criterion, without a word about terms, and
`ReadsAs` cuts a list of tokens into criteria. A term that compiles from tokens holds of exactly the
messages that meet all of their criteria.
-/

namespace MailSearch

theorem SearchKey.eq_of_sameName {k k' : SearchKey} (h : lowerAscii k.name = lowerAscii k'.name) :
    k = k' := by
  revert k k'
  have : ∀ k ∈ listing, ∀ k' ∈ listing, lowerAscii k.name = lowerAscii k'.name → k = k' := by
    decide +kernel
  exact fun {k k'} => this k (mem_listing k) k' (mem_listing k')

theorem SearchKey.ofToken?_eq_some_iff {token : String} {key : SearchKey} :
    ofToken? token = some key ↔ lowerAscii key.name = lowerAscii token :=
  find?_sameIgnoringCase mem_listing fun _ _ => eq_of_sameName

/-- Some field of the name has a value in which the text is found. -/
def Message.HeaderHas [MatcherLimit] (m : Message) (strictness : Strictness)
    (name text : String) : Prop :=
  ∃ field ∈ m.fields, lowerAscii field.name = lowerAscii name ∧
    ∃ needle, Needle.ofText text strictness = .ok needle ∧ needle.isFoundIn field.value = true

def Message.AddressHas (m : Message) (role : Role) (text : String) : Prop :=
  ∃ target, EmailAddress.parse text = .ok target ∧ ∃ a ∈ m.addresses role,
    lowerAscii a.localPart = lowerAscii target.localPart ∧
      lowerAscii a.domain = lowerAscii target.domain

def Message.UidWithin (m : Message) (text : String) : Prop :=
  ∃ uid, m.uid = some uid ∧ ∃ part ∈ splitOn ',' text.toList, ∃ r, UidRange.ofText? part = some r ∧
    uid ∈ r

def Message.FlagNamed (m : Message) (name : String) (present : Bool) : Prop :=
  ∃ flag, Flag.ofName? name = some flag ∧ m.hasFlag flag = present

/-- When a message meets the criterion of a key with its parameters. -/
def Satisfies [MatcherLimit] (strictness : Strictness) (m : Message) :
    SearchKey → List String → Prop
  | .all, [] => True
  | .answered, [] => m.hasFlag (.system .answered) = true
  | .deleted, [] => m.hasFlag (.system .deleted) = true
  | .draft, [] => m.hasFlag (.system .draft) = true
  | .flagged, [] => m.hasFlag (.system .flagged) = true
  | .recent, [] => m.hasFlag (.system .recent) = true
  | .seen, [] => m.hasFlag (.system .seen) = true
  | .unanswered, [] => m.hasFlag (.system .answered) = false
  | .undeleted, [] => m.hasFlag (.system .deleted) = false
  | .undraft, [] => m.hasFlag (.system .draft) = false
  | .unflagged, [] => m.hasFlag (.system .flagged) = false
  | .old, [] => m.hasFlag (.system .recent) = false
  | .unseen, [] => m.hasFlag (.system .seen) = false
  | .new, [] => m.hasFlag (.system .recent) = true ∧ m.hasFlag (.system .seen) = false
  | .keyword, [name] => m.FlagNamed name true
  | .unkeyword, [name] => m.FlagNamed name false
  | .sender, [address] => m.AddressHas .sender address
  | .recipient, [address] => m.AddressHas .recipient address
  | .cc, [address] => m.AddressHas .cc address
  | .bcc, [address] => m.AddressHas .bcc address
  | .subject, [text] => m.HeaderHas strictness "Subject" text
  | .header, [field, text] => m.HeaderHas strictness field text
  | .uid, [set] => m.UidWithin set
  | _, _ => False

/-- Cuts tokens into criteria: a key, and as many tokens as it has parameters. -/
inductive ReadsAs : List String → List (SearchKey × List String) → Prop
  | nil : ReadsAs [] []
  | cons {token : String} {key : SearchKey} {parameters rest : List String}
      {criteria : List (SearchKey × List String)} :
      lowerAscii key.name = lowerAscii token → parameters.length = key.parameterCount →
      ReadsAs rest criteria →
      ReadsAs (token :: (parameters ++ rest)) ((key, parameters) :: criteria)

theorem ReadsAs.unique {tokens : List String} {cs cs' : List (SearchKey × List String)}
    (h : ReadsAs tokens cs) (h' : ReadsAs tokens cs') : cs = cs' := by
  induction h generalizing cs' with
  | nil => cases h'; rfl
  | cons hk hp _ ih =>
    generalize ht : _ :: _ = tokens at h'
    cases h' with
    | nil => cases ht
    | cons hk' hp' hr' =>
      obtain ⟨rfl, happ⟩ := List.cons.inj ht
      obtain rfl := SearchKey.eq_of_sameName (hk.trans hk'.symm)
      obtain ⟨rfl, rfl⟩ := List.append_inj happ (hp.trans hp'.symm)
      rw [ih hr']

namespace Term

variable {m : Message}

@[simp] theorem holds_all : all.holds m = true := rfl

theorem holds_flagIs {flag : Flag} {present : Bool} :
    (flagIs flag present).holds m = true ↔ m.hasFlag flag = present := by
  simp only [holds, eval, beq_iff_eq]
  exact eq_comm

@[simp] theorem holds_and {t u : Term} : (t.and u).holds m = (t.holds m && u.holds m) := by
  simp only [holds, eval]
  split <;> simp_all

@[simp] theorem holds_conj {t u : Term} : (t.conj u).holds m = (t.holds m && u.holds m) := by
  cases t <;> cases u <;> simp [conj]

end Term

namespace Criterion

variable {m : Message} {t : Term} {strictness : Strictness}

theorem flagTest_holds {flag : SystemFlag} {present : Bool} (h : flagTest flag present = .ok t) :
    t.holds m = true ↔ m.hasFlag (.system flag) = present := by
  cases h
  exact Term.holds_flagIs

theorem keywordTest_eq_ok {name : String} {present : Bool} (h : keywordTest name present = .ok t) :
    ∃ flag, Flag.ofName? name = some flag ∧ t = .flagIs flag present := by
  rw [keywordTest] at h
  split at h
  · rename_i flag hflag
    cases h
    exact ⟨flag, hflag, rfl⟩
  · cases h

theorem exists_of_read {α : Type} {read : Except SearchError α} {test : α → Term}
    (h : (do return test (← read)) = .ok t) : ∃ v, read = .ok v ∧ t = test v := by
  cases read with
  | error e => cases h
  | ok v =>
    cases h
    exact ⟨v, rfl, rfl⟩

theorem keywordTest_holds {name : String} {present : Bool} (h : keywordTest name present = .ok t) :
    t.holds m = true ↔ m.FlagNamed name present := by
  obtain ⟨flag, hflag, rfl⟩ := keywordTest_eq_ok h
  simp [Term.holds_flagIs, Message.FlagNamed, hflag]

theorem addressTest_holds {role : Role} {text : String} (h : addressTest role text = .ok t) :
    t.holds m = true ↔ m.AddressHas role text := by
  obtain ⟨target, hp, rfl⟩ := exists_of_read h
  simp [Term.holds, Term.eval, Message.AddressHas, hp, EmailAddress.sameAs]

theorem uidTest_holds {text : String} (h : uidTest text = .ok t) :
    t.holds m = true ↔ m.UidWithin text := by
  obtain ⟨set, hp, rfl⟩ := exists_of_read h
  simp only [Term.holds, Term.eval, Message.UidWithin, ← UidSet.mem_of_parse hp]
  cases hu : m.uid with
  | none => simp
  | some uid => simp [UidSet.contains_iff_mem]

variable [MatcherLimit]

theorem headerTest_holds {field text : String} (h : headerTest field text strictness = .ok t) :
    t.holds m = true ↔ m.HeaderHas strictness field text := by
  obtain ⟨needle, hn, rfl⟩ := exists_of_read h
  simp [Term.holds, Term.eval, Message.HeaderHas, hn, Message.values]

/-- The term built for a criterion is what the criterion means. -/
theorem build_holds {c : Criterion} (h : c.build = .ok t) :
    t.holds m = true ↔ Satisfies c.strictness m c.key c.parameters := by
  have hp := length_of_build h
  obtain ⟨key, parameters, strictness⟩ := c
  cases key with
  | all =>
    obtain rfl := List.eq_nil_of_length_eq_zero hp
    cases h
    exact iff_of_true rfl trivial
  | answered | deleted | draft | flagged | old | recent | seen | unanswered | undeleted | undraft
  | unflagged | unseen =>
    obtain rfl := List.eq_nil_of_length_eq_zero hp
    exact flagTest_holds h
  | new =>
    obtain rfl := List.eq_nil_of_length_eq_zero hp
    cases h
    rw [Term.holds_conj, Bool.and_eq_true, Term.holds_flagIs, Term.holds_flagIs]
    rfl
  | keyword | unkeyword =>
    obtain ⟨name, rfl⟩ := List.length_eq_one_iff.mp hp
    exact keywordTest_holds h
  | sender | recipient | cc | bcc =>
    obtain ⟨text, rfl⟩ := List.length_eq_one_iff.mp hp
    exact addressTest_holds h
  | subject =>
    obtain ⟨text, rfl⟩ := List.length_eq_one_iff.mp hp
    exact headerTest_holds h
  | header =>
    obtain ⟨field, text, rfl⟩ := List.length_eq_two.mp hp
    exact headerTest_holds h
  | uid =>
    obtain ⟨text, rfl⟩ := List.length_eq_one_iff.mp hp
    exact uidTest_holds h

end Criterion

variable [MatcherLimit] {strictness : Strictness} {term t : Term}

theorem exists_of_compileOnto_cons {token : String} {rest : List String}
    (h : compileOnto strictness term (token :: rest) = .ok t) :
    ∃ key u, SearchKey.ofToken? token = some key ∧ key.parameterCount ≤ rest.length ∧
      (⟨key, rest.take key.parameterCount, strictness⟩ : Criterion).build = .ok u ∧
      compileOnto strictness (term.conj u) (rest.drop key.parameterCount) = .ok t := by
  cases hk : SearchKey.ofToken? token with
  | none =>
    rw [compileOnto_of_unknown hk] at h
    cases h
  | some key =>
    by_cases hlt : rest.length < key.parameterCount
    · rw [compileOnto_of_missing hk hlt] at h
      cases h
    · have hle := Nat.le_of_not_lt hlt
      have hfilled : compileOnto strictness term
          (token :: (rest.take key.parameterCount ++ rest.drop key.parameterCount)) = _ :=
        compileOnto_of_filled hk (List.length_take_of_le hle)
      rw [List.take_append_drop, h] at hfilled
      cases hb : (⟨key, rest.take key.parameterCount, strictness⟩ : Criterion).build with
      | error e => rw [hb] at hfilled; cases hfilled
      | ok u =>
        rw [hb] at hfilled
        exact ⟨key, u, rfl, hle, hb, hfilled.symm⟩

theorem compileOnto_holds {tokens : List String}
    (h : compileOnto strictness term tokens = .ok t) :
    ∃ criteria, ReadsAs tokens criteria ∧ ∀ m, t.holds m = true ↔
      term.holds m = true ∧ ∀ c ∈ criteria, Satisfies strictness m c.1 c.2 := by
  induction hn : tokens.length using Nat.strong_induction_on generalizing tokens term with
  | _ n ih =>
    cases tokens with
    | nil =>
      rw [compileOnto] at h
      cases h
      exact ⟨[], .nil, fun m => by simp⟩
    | cons token rest =>
      obtain ⟨key, u, hk, hle, hb, hrest⟩ := exists_of_compileOnto_cons h
      have hlt : (rest.drop key.parameterCount).length < n := by
        rw [← hn, List.length_drop, List.length_cons]; omega
      obtain ⟨criteria, hreads, hmeans⟩ := ih _ hlt hrest rfl
      refine ⟨(key, rest.take key.parameterCount) :: criteria, ?_, fun m => ?_⟩
      · have hcons := ReadsAs.cons (SearchKey.ofToken?_eq_some_iff.mp hk)
          (by rw [List.length_take, Nat.min_eq_left hle]) hreads
        rwa [List.take_append_drop] at hcons
      · rw [hmeans m, Term.holds_conj, Bool.and_eq_true, Criterion.build_holds hb, and_assoc,
          List.forall_mem_cons]

/-- Tokens that compile are criteria, and their term holds of the messages that meet them all. -/
theorem compile_holds {tokens : List String} (h : compile strictness tokens = .ok t) :
    ∃ criteria, ReadsAs tokens criteria ∧ ∀ m, t.holds m = true ↔
      ∀ c ∈ criteria, Satisfies strictness m c.1 c.2 := by
  obtain ⟨criteria, hreads, hmeans⟩ := compileOnto_holds h
  exact ⟨criteria, hreads, fun m => (hmeans m).trans (and_iff_right Term.holds_all)⟩

end MailSearch
