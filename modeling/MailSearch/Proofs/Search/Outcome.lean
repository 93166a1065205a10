import Mathlib.Data.List.Basic
import MailSearch.Proofs.Search.Meaning

/-! # What comes of compiling

A list of tokens opens with a longest run of whole criteria. It compiles if no token is left after
them and every one of them builds. If not, the error is that of the first place from the left that
is at fault, and it puts the blame on the criteria.
-/

namespace MailSearch

variable {strictness : Strictness} {e : SearchError}

namespace Criterion

/-- Why a criterion that has all of its parameters does not build. -/
inductive Refused [MatcherLimit] (strictness : Strictness) :
    SearchKey → List String → SearchError → Prop
  | address {key : SearchKey} {text : String} : key ∈ [.sender, .recipient, .cc, .bcc] →
      Mailbox.parse? (Utf8.encode text) = none →
      Refused strictness key [text] (.invalidAddress text)
  | uids {text : String} : UidSet.ofText? text.toList = none →
      Refused strictness .uid [text] (.invalidUidRange text)
  | flag {key : SearchKey} {name : String} : key ∈ [.keyword, .unkeyword] →
      Flag.ofName? name = none → Refused strictness key [name] .emptyFlagName
  | subject {text : String} : (∀ needle, Needle.ofText text strictness ≠ .ok needle) →
      Refused strictness .subject [text] .unsearchableText
  | header {field text : String} : (∀ needle, Needle.ofText text strictness ≠ .ok needle) →
      Refused strictness .header [field, text] .unsearchableText

theorem addressTest_error_iff {role : Role} {text : String} :
    addressTest role text = .error e ↔
      Mailbox.parse? (Utf8.encode text) = none ∧ e = .invalidAddress text := by
  simp only [addressTest, EmailAddress.parse]
  cases Mailbox.parse? (Utf8.encode text) with
  | none => simp [bind, Except.bind, eq_comm]
  | some box => simp [bind, Except.bind, pure, Except.pure]

theorem uidTest_error_iff {text : String} :
    uidTest text = .error e ↔ UidSet.ofText? text.toList = none ∧ e = .invalidUidRange text := by
  simp only [uidTest, UidSet.parse]
  cases UidSet.ofText? text.toList with
  | none => simp [bind, Except.bind, eq_comm]
  | some set => simp [bind, Except.bind, pure, Except.pure]

theorem keywordTest_error_iff {name : String} {present : Bool} :
    keywordTest name present = .error e ↔ Flag.ofName? name = none ∧ e = .emptyFlagName := by
  simp only [keywordTest]
  cases Flag.ofName? name with
  | none => simp [eq_comm]
  | some flag => simp

variable [MatcherLimit]

theorem headerTest_error_iff {field text : String} :
    headerTest field text strictness = .error e ↔
      (∀ needle, Needle.ofText text strictness ≠ .ok needle) ∧ e = .unsearchableText := by
  simp only [headerTest, Needle.ofText]
  split
  · simp [bind, Except.bind, pure, Except.pure]
  · simp [bind, Except.bind, eq_comm]

theorem build_error_iff {c : Criterion} (hp : c.parameters.length = c.key.parameterCount) :
    c.build = .error e ↔ Refused c.strictness c.key c.parameters e := by
  obtain ⟨key, parameters, strictness⟩ := c
  simp only at hp ⊢
  cases key with
  | all | answered | deleted | draft | flagged | new | old | recent | seen | unanswered | undeleted
  | undraft | unflagged | unseen =>
    obtain rfl := List.eq_nil_of_length_eq_zero hp
    constructor <;> rintro ⟨⟩
  | sender | recipient | cc | bcc =>
    obtain ⟨text, rfl⟩ := List.length_eq_one_iff.mp hp
    refine addressTest_error_iff.trans ⟨?_, ?_⟩
    · rintro ⟨hn, rfl⟩
      exact .address (by simp) hn
    · rintro (⟨-, hn⟩ | _ | ⟨hk, -⟩)
      · exact ⟨hn, rfl⟩
      · simp at hk
  | uid =>
    obtain ⟨text, rfl⟩ := List.length_eq_one_iff.mp hp
    refine uidTest_error_iff.trans ⟨?_, ?_⟩
    · rintro ⟨hn, rfl⟩
      exact .uids hn
    · rintro (⟨hk, -⟩ | hn | ⟨hk, -⟩)
      · simp at hk
      · exact ⟨hn, rfl⟩
      · simp at hk
  | keyword | unkeyword =>
    obtain ⟨name, rfl⟩ := List.length_eq_one_iff.mp hp
    refine keywordTest_error_iff.trans ⟨?_, ?_⟩
    · rintro ⟨hn, rfl⟩
      exact .flag (by simp) hn
    · rintro (⟨hk, -⟩ | _ | ⟨-, hn⟩)
      · simp at hk
      · exact ⟨hn, rfl⟩
  | subject =>
    obtain ⟨text, rfl⟩ := List.length_eq_one_iff.mp hp
    refine headerTest_error_iff.trans ⟨?_, ?_⟩
    · rintro ⟨hn, rfl⟩
      exact .subject hn
    · rintro (⟨hk, -⟩ | _ | ⟨hk, -⟩ | hn)
      · simp at hk
      · simp at hk
      · exact ⟨hn, rfl⟩
  | header =>
    obtain ⟨field, text, rfl⟩ := List.length_eq_two.mp hp
    refine headerTest_error_iff.trans ⟨?_, ?_⟩
    · rintro ⟨hn, rfl⟩
      exact .header hn
    · rintro ⟨⟩
      exact ⟨‹_›, rfl⟩

end Criterion

/-- What is at fault with tokens that open with no whole criterion. -/
inductive Leftover : List String → SearchError → Prop
  | unknownKey {token : String} {rest : List String} :
      (∀ key : SearchKey, lowerAscii key.name ≠ lowerAscii token) →
      Leftover (token :: rest) (.unknownKey token)
  | missingParameter {token : String} {key : SearchKey} {rest : List String} :
      lowerAscii key.name = lowerAscii token → rest.length < key.parameterCount →
      Leftover (token :: rest) (.missingParameter key)

def Exhausted (left : List String) : Prop := left = [] ∨ ∃ e, Leftover left e

/-- Whole criteria and the tokens left after them make up the list. -/
def Cuts (tokens : List String) (criteria : List (SearchKey × List String))
    (left : List String) : Prop :=
  ∃ used, ReadsAs used criteria ∧ tokens = used ++ left

def Builds [MatcherLimit] (strictness : Strictness) (c : SearchKey × List String) : Prop :=
  ∃ t, Criterion.build ⟨c.1, c.2, strictness⟩ = .ok t

/-- The error of the first criterion that does not build, or of the tokens left. -/
def FirstFault [MatcherLimit] (strictness : Strictness) (criteria : List (SearchKey × List String))
    (left : List String) (e : SearchError) : Prop :=
  (∃ before c after, criteria = before ++ c :: after ∧ (∀ b ∈ before, Builds strictness b) ∧
    Criterion.build ⟨c.1, c.2, strictness⟩ = .error e) ∨
  (∀ c ∈ criteria, Builds strictness c) ∧ Leftover left e

variable {token : String} {key : SearchKey} {parameters rest left used tokens : List String}
  {c : SearchKey × List String} {criteria : List (SearchKey × List String)} {term : Term}

theorem not_leftover_nil : ¬ Leftover [] e := by
  rintro ⟨⟩

theorem Leftover.unique {e' : SearchError} (h : Leftover left e) (h' : Leftover left e') :
    e = e' := by
  cases h with
  | unknownKey hn =>
    cases h' with
    | unknownKey => rfl
    | missingParameter hk => exact absurd hk (hn _)
  | missingParameter hk =>
    cases h' with
    | unknownKey hn => exact absurd hk (hn _)
    | missingParameter hk' => rw [SearchKey.eq_of_sameName (hk.trans hk'.symm)]

theorem not_leftover_of_criterion (hk : lowerAscii key.name = lowerAscii token)
    (hp : parameters.length = key.parameterCount) :
    ¬ Leftover (token :: (parameters ++ rest)) e := by
  intro h
  cases h with
  | unknownKey hn => exact hn key hk
  | missingParameter hk' hlt =>
    obtain rfl := SearchKey.eq_of_sameName (hk.trans hk'.symm)
    rw [List.length_append] at hlt
    omega

theorem exists_cut (tokens : List String) :
    ∃ criteria left, Cuts tokens criteria left ∧ Exhausted left := by
  induction hn : tokens.length using Nat.strong_induction_on generalizing tokens with
  | _ n ih =>
    cases tokens with
    | nil => exact ⟨[], [], ⟨[], .nil, rfl⟩, Or.inl rfl⟩
    | cons token rest =>
      have hstop : ∀ {e}, Leftover (token :: rest) e → ∃ criteria left,
          Cuts (token :: rest) criteria left ∧ Exhausted left := fun h =>
        ⟨[], token :: rest, ⟨[], .nil, rfl⟩, Or.inr ⟨_, h⟩⟩
      by_cases hk : ∃ key : SearchKey, lowerAscii key.name = lowerAscii token
      · obtain ⟨key, hk⟩ := hk
        by_cases hlt : rest.length < key.parameterCount
        · exact hstop (.missingParameter hk hlt)
        · have hdrop : (rest.drop key.parameterCount).length < n := by
            rw [← hn, List.length_drop, List.length_cons]
            omega
          obtain ⟨criteria, left, ⟨used, hreads, he⟩, hleft⟩ := ih _ hdrop _ rfl
          have htake : (rest.take key.parameterCount).length = key.parameterCount := by
            rw [List.length_take]
            omega
          refine ⟨_, left, ⟨_, .cons hk htake hreads, ?_⟩, hleft⟩
          rw [List.cons_append, List.append_assoc, ← he, List.take_append_drop]
      · exact hstop (.unknownKey (not_exists.mp hk))

theorem ReadsAs.extends {used' left' : List String} {criteria' : List (SearchKey × List String)}
    (h : ReadsAs used criteria) (hleft : Exhausted left)
    (h' : ReadsAs used' criteria') (he : used ++ left = used' ++ left') : used' <+: used := by
  induction h generalizing used' criteria' with
  | nil =>
    cases h' with
    | nil => exact List.prefix_rfl
    | cons hk hp _ =>
      rw [List.nil_append, List.cons_append, List.append_assoc] at he
      rcases hleft with rfl | ⟨e, hl⟩
      · cases he
      · exact absurd (he ▸ hl) (not_leftover_of_criterion hk hp)
  | cons hk hp _ ih =>
    cases h' with
    | nil => exact List.nil_prefix
    | cons hk' hp' hr' =>
      simp only [List.cons_append, List.append_assoc, List.cons.injEq] at he
      obtain ⟨rfl, he⟩ := he
      obtain rfl := SearchKey.eq_of_sameName (hk.trans hk'.symm)
      obtain ⟨rfl, hrest⟩ := List.append_inj he (hp.trans hp'.symm)
      rw [List.cons_prefix_cons, List.prefix_append_right_inj]
      exact ⟨rfl, ih hr' hrest⟩

/-- A cut that cannot go on leaves fewer tokens than any other. -/
theorem Cuts.longest {left' : List String} {criteria' : List (SearchKey × List String)}
    (h : Cuts tokens criteria left) (hleft : Exhausted left)
    (h' : Cuts tokens criteria' left') :
    left.length ≤ left'.length ∧
      (left'.length = left.length → criteria' = criteria ∧ left' = left) := by
  obtain ⟨used, hreads, rfl⟩ := h
  obtain ⟨used', hreads', he⟩ := h'
  obtain ⟨more, rfl⟩ := hreads.extends hleft hreads' he
  rw [List.append_assoc, List.append_cancel_left_eq] at he
  subst he
  refine ⟨by simp, fun hlen => ?_⟩
  obtain rfl : more = [] := List.eq_nil_of_length_eq_zero (by simpa using hlen)
  rw [List.append_nil] at hreads
  exact ⟨hreads'.unique hreads, rfl⟩

theorem ReadsAs.parameters_length (h : ReadsAs used criteria) :
    ∀ c ∈ criteria, c.2.length = c.1.parameterCount := by
  induction h with
  | nil => simp
  | cons _ hp _ ih => exact List.forall_mem_cons.mpr ⟨hp, ih⟩

def SearchError.BlamesTokens (e : SearchError) : Prop :=
  e.isBadCriteria = true ∧ ∀ key expected actual, e ≠ .wrongParameterCount key expected actual

theorem Leftover.blames (h : Leftover left e) : e.BlamesTokens := by
  cases h <;> exact ⟨rfl, nofun⟩

theorem ExitStatus.code_ofError_of_isBadCriteria (h : e.isBadCriteria = true) :
    (ofError e).code = 64 := by
  cases e with
  | badConfiguration | unreadable => cases h
  | _ => rfl

variable [MatcherLimit]

theorem compileOnto_criterion (hk : lowerAscii key.name = lowerAscii token)
    (hp : parameters.length = key.parameterCount) :
    compileOnto strictness term (token :: (parameters ++ rest)) =
      Criterion.build ⟨key, parameters, strictness⟩ >>= fun u =>
        compileOnto strictness (term.conj u) rest :=
  compileOnto_of_filled (SearchKey.ofToken?_eq_some_iff.mpr hk) hp

theorem compileOnto_eq_ok_iff {t : Term} (hk : lowerAscii key.name = lowerAscii token)
    (hp : parameters.length = key.parameterCount) :
    compileOnto strictness term (token :: (parameters ++ rest)) = .ok t ↔
      ∃ u, Criterion.build ⟨key, parameters, strictness⟩ = .ok u ∧
        compileOnto strictness (term.conj u) rest = .ok t := by
  rw [compileOnto_criterion hk hp]
  cases Criterion.build ⟨key, parameters, strictness⟩ <;> simp [bind, Except.bind]

theorem compile_criterion (hk : lowerAscii key.name = lowerAscii token)
    (hp : parameters.length = key.parameterCount) :
    compile strictness (token :: parameters) = Criterion.build ⟨key, parameters, strictness⟩ := by
  have h : compileOnto strictness .all (token :: (parameters ++ [])) = _ :=
    compileOnto_criterion hk hp
  rw [List.append_nil] at h
  rw [compile, h]
  cases Criterion.build ⟨key, parameters, strictness⟩ <;> simp [compileOnto, Term.conj, bind,
    Except.bind]

theorem compileOnto_leftover (h : Leftover left e) :
    compileOnto strictness term left = .error e := by
  cases h with
  | unknownKey hn =>
    exact compileOnto_of_unknown (Option.eq_none_iff_forall_ne_some.mpr fun key hk =>
      hn key (SearchKey.ofToken?_eq_some_iff.mp hk))
  | missingParameter hk hlt =>
    exact compileOnto_of_missing (SearchKey.ofToken?_eq_some_iff.mpr hk) hlt

theorem firstFault_nil : FirstFault strictness [] left e ↔ Leftover left e := by
  simp [FirstFault]

theorem firstFault_cons : FirstFault strictness (c :: criteria) left e ↔
    Criterion.build ⟨c.1, c.2, strictness⟩ = .error e ∨
      Builds strictness c ∧ FirstFault strictness criteria left e := by
  constructor
  · rintro (⟨before, d, after, he, hbefore, hd⟩ | ⟨hall, hl⟩)
    · cases before with
      | nil =>
        obtain ⟨rfl, -⟩ := List.cons.inj he
        exact Or.inl hd
      | cons b before =>
        obtain ⟨rfl, rfl⟩ := List.cons.inj he
        obtain ⟨hc, hbefore⟩ := List.forall_mem_cons.mp hbefore
        exact Or.inr ⟨hc, Or.inl ⟨before, d, after, rfl, hbefore, hd⟩⟩
    · obtain ⟨hc, hall⟩ := List.forall_mem_cons.mp hall
      exact Or.inr ⟨hc, Or.inr ⟨hall, hl⟩⟩
  · rintro (hc | ⟨hc, ⟨before, d, after, rfl, hbefore, hd⟩ | ⟨hall, hl⟩⟩)
    · exact Or.inl ⟨[], c, criteria, rfl, by simp, hc⟩
    · exact Or.inl ⟨c :: before, d, after, rfl, List.forall_mem_cons.mpr ⟨hc, hbefore⟩, hd⟩
    · exact Or.inr ⟨List.forall_mem_cons.mpr ⟨hc, hall⟩, hl⟩

/-- What is at fault with one criterion keeps the rest from being looked at. -/
theorem ReadsAs.compileOnto_error_iff (h : ReadsAs used criteria) (hleft : Exhausted left) :
    compileOnto strictness term (used ++ left) = .error e ↔
      FirstFault strictness criteria left e := by
  induction h generalizing term with
  | nil =>
    rw [List.nil_append, firstFault_nil]
    rcases hleft with rfl | ⟨e', hl⟩
    · simp [compileOnto, not_leftover_nil]
    · rw [compileOnto_leftover hl, Except.error.injEq]
      constructor
      · rintro rfl
        exact hl
      · exact hl.unique
  | @cons token key parameters rest criteria hk hp _ ih =>
    rw [List.cons_append, List.append_assoc, compileOnto_criterion hk hp, firstFault_cons, Builds]
    cases hb : Criterion.build ⟨key, parameters, strictness⟩ with
    | error e' => simp [bind, Except.bind]
    | ok u => simp [bind, Except.bind, ih]

theorem ReadsAs.compileOnto_ok_iff (h : ReadsAs used criteria) (hleft : Exhausted left) :
    (∃ t, compileOnto strictness term (used ++ left) = .ok t) ↔
      left = [] ∧ ∀ c ∈ criteria, Builds strictness c := by
  induction h generalizing term with
  | nil =>
    rcases hleft with rfl | ⟨e', hl⟩
    · simp [compileOnto]
    · have hne : left ≠ [] := fun he => not_leftover_nil (he ▸ hl)
      simp [compileOnto_leftover hl, hne]
  | @cons token key parameters rest criteria hk hp _ ih =>
    rw [List.cons_append, List.append_assoc, compileOnto_criterion hk hp, List.forall_mem_cons,
      Builds]
    cases hb : Criterion.build ⟨key, parameters, strictness⟩ with
    | error e' => simp [bind, Except.bind]
    | ok u => simpa [bind, Except.bind] using ih

theorem Criterion.Refused.blames {ps : List String} (h : Refused strictness key ps e) :
    e.BlamesTokens := by
  cases h <;> exact ⟨rfl, nofun⟩

/-- The longest cut into criteria decides the outcome, and the first place at fault the error. -/
theorem compile_outcome (strictness : Strictness) (tokens : List String) :
    ∃ criteria left, Cuts tokens criteria left ∧
      (∀ criteria' left', Cuts tokens criteria' left' → left.length ≤ left'.length ∧
        (left'.length = left.length → criteria' = criteria ∧ left' = left)) ∧
      ((∃ t, compile strictness tokens = .ok t) ↔
        left = [] ∧ ∀ c ∈ criteria, Builds strictness c) ∧
      (∀ e, compile strictness tokens = .error e ↔ FirstFault strictness criteria left e) ∧
      (∀ c ∈ criteria, ∀ e, Criterion.build ⟨c.1, c.2, strictness⟩ = .error e ↔
        Criterion.Refused strictness c.1 c.2 e) ∧
      ∀ e, compile strictness tokens = .error e →
        e.isBadCriteria = true ∧ (ExitStatus.ofError e).code = 64 ∧
        (∀ key expected actual, e ≠ .wrongParameterCount key expected actual) ∧
        e ≠ .badConfiguration ∧ ∀ fault, e ≠ .unreadable fault := by
  obtain ⟨criteria, left, hcut, hleft⟩ := exists_cut tokens
  obtain ⟨used, hreads, rfl⟩ := id hcut
  have hrefused : ∀ c ∈ criteria, ∀ e, Criterion.build ⟨c.1, c.2, strictness⟩ = .error e ↔
      Criterion.Refused strictness c.1 c.2 e := fun c hc _ =>
    Criterion.build_error_iff (hreads.parameters_length c hc)
  have herror : ∀ e, compile strictness (used ++ left) = .error e ↔
      FirstFault strictness criteria left e := fun _ => hreads.compileOnto_error_iff hleft
  refine ⟨criteria, left, hcut, fun _ _ => hcut.longest hleft, hreads.compileOnto_ok_iff hleft,
    herror, hrefused, ?_⟩
  intro e he
  obtain ⟨hbad, hcount⟩ : e.BlamesTokens := by
    rcases (herror e).mp he with ⟨before, c, after, rfl, -, hc⟩ | ⟨-, hl⟩
    · exact ((hrefused c (by simp) e).mp hc).blames
    · exact hl.blames
  refine ⟨hbad, ExitStatus.code_ofError_of_isBadCriteria hbad, hcount, ?_, ?_⟩
  · rintro rfl
    cases hbad
  · rintro fault rfl
    cases hbad

end MailSearch
