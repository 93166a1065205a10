import MailSearch.Proofs.Search.AddressCriteria
import MailSearch.Proofs.Search.FlagCriteria
import MailSearch.Proofs.Search.Warnings

/-! # The shape of compiled terms

A compiled term is a conjunction that nests to the left. Every criterion that tests anything is one
member of it, in the order given: a single test, or for new messages the pair of the two tests that
they take. A criterion that holds of every message leaves no trace.
-/

namespace MailSearch

/-- The tests that a criterion makes, from left to right. -/
inductive Criterion.Tests [MatcherLimit] (strictness : Strictness) :
    SearchKey → List String → List Term → Prop
  | all : Tests strictness .all [] []
  | new : Tests strictness .new []
      [.flagIs (.system .recent) true, .flagIs (.system .seen) false]
  | present (f : SystemFlag) : Tests strictness f.presentKey [] [.flagIs (.system f) true]
  | absent (f : SystemFlag) : Tests strictness f.absentKey [] [.flagIs (.system f) false]
  | keyword {name : String} {flag : Flag} : Flag.ofName? name = some flag →
      Tests strictness .keyword [name] [.flagIs flag true]
  | unkeyword {name : String} {flag : Flag} : Flag.ofName? name = some flag →
      Tests strictness .unkeyword [name] [.flagIs flag false]
  | address {text : String} {a : EmailAddress} (role : Role) : EmailAddress.parse text = .ok a →
      Tests strictness role.searchKey [text] [.addressIs role a]
  | subject {text : String} {needle : Needle} : Needle.ofText text strictness = .ok needle →
      Tests strictness .subject [text] [.headerContains "Subject" needle]
  | header {field text : String} {needle : Needle} : Needle.ofText text strictness = .ok needle →
      Tests strictness .header [field, text] [.headerContains field needle]
  | uid {text : String} {set : UidSet} : UidSet.parse text = .ok set →
      Tests strictness .uid [text] [.uidIn set]

def TestedBy [MatcherLimit] (strictness : Strictness) (criteria : List (SearchKey × List String))
    (groups : List (List Term)) : Prop :=
  List.Forall₂ (fun c tests => Criterion.Tests strictness c.1 c.2 tests) criteria groups

namespace Term

/-- The conjunction of terms, nested to the left. -/
def nest : List Term → Term
  | [] => all
  | t :: ts => ts.foldl and t

def members (groups : List (List Term)) : List Term := (groups.filter (!·.isEmpty)).map nest

def nestedText : List String → String
  | [] => "ALL"
  | s :: ss => ss.foldl (fun left right => "(" ++ left ++ " AND " ++ right ++ ")") s

variable {t u : Term} {ts : List Term} {tests : List Term} {groups : List (List Term)}

theorem conj_all (t : Term) : t.conj all = t := by
  cases t <;> rfl

theorem conj_of_ne_all (ht : t ≠ all) (hu : u ≠ all) : t.conj u = t.and u := by
  cases t with
  | all => exact absurd rfl ht
  | _ =>
    cases u with
    | all => exact absurd rfl hu
    | _ => rfl

theorem foldl_and_ne_all (ht : t ≠ all) (ts : List Term) : ts.foldl and t ≠ all := by
  induction ts generalizing t with
  | nil => exact ht
  | cons u ts ih => exact ih nofun

theorem nest_ne_all (hts : ∀ t ∈ ts, t ≠ all) (hne : ts ≠ []) : nest ts ≠ all := by
  cases ts with
  | nil => exact absurd rfl hne
  | cons t ts => exact foldl_and_ne_all (hts t List.mem_cons_self) ts

theorem conj_nest (hts : ∀ t ∈ ts, t ≠ all) (hu : u ≠ all) :
    (nest ts).conj u = nest (ts ++ [u]) := by
  cases ts with
  | nil => rfl
  | cons t ts =>
    rw [conj_of_ne_all (nest_ne_all hts (List.cons_ne_nil t ts)) hu]
    exact (List.foldl_concat and t u ts).symm

theorem leaves_foldl_and (t : Term) (ts : List Term) :
    (ts.foldl and t).leaves = t.leaves ++ ts.flatMap leaves := by
  induction ts generalizing t with
  | nil => simp
  | cons u ts ih => simp [ih, leaves]

theorem leaves_nest (hne : ts ≠ []) : (nest ts).leaves = ts.flatMap leaves := by
  cases ts with
  | nil => exact absurd rfl hne
  | cons t ts => exact leaves_foldl_and t ts

theorem text_nest (ts : List Term) : (nest ts).text = nestedText (ts.map text) := by
  cases ts with
  | nil => rfl
  | cons t ts =>
    simp only [nest, nestedText, List.map_cons]
    induction ts generalizing t with
    | nil => rfl
    | cons u ts ih => exact ih (t.and u)

theorem flatMap_leaves_of_single (h : ∀ l ∈ tests, l.leaves = [l]) :
    tests.flatMap leaves = tests := by
  rw [List.flatMap_congr h, List.flatMap_singleton']

theorem members_nil_cons : members ([] :: groups) = members groups := rfl

theorem members_cons (hne : tests ≠ []) :
    members (tests :: groups) = nest tests :: members groups := by
  cases tests with
  | nil => exact absurd rfl hne
  | cons l tests => rfl

theorem members_eq_nil_iff : members groups = [] ↔ ∀ tests ∈ groups, tests = [] := by
  simp [members]

theorem text_members : (members groups).map text =
    (groups.filter (!·.isEmpty)).map fun tests => nestedText (tests.map text) := by
  rw [members, List.map_map]
  exact List.map_congr_left fun tests _ => text_nest tests

end Term

open Term

variable [MatcherLimit] {strictness : Strictness} {key : SearchKey}
  {parameters tokens : List String}
  {t : Term} {ts tests : List Term} {criteria : List (SearchKey × List String)}
  {groups : List (List Term)}

namespace Criterion

theorem build_present_tests (f : SystemFlag)
    (h : build ⟨f.presentKey, parameters, strictness⟩ = .ok t) :
    ∃ tests, Tests strictness f.presentKey parameters tests ∧ t = nest tests := by
  have hcount : f.presentKey.parameterCount = 0 := by cases f <;> rfl
  obtain rfl := List.eq_nil_of_length_eq_zero ((length_of_build h).trans hcount)
  cases f <;> cases h <;> exact ⟨_, .present _, rfl⟩

theorem build_absent_tests (f : SystemFlag)
    (h : build ⟨f.absentKey, parameters, strictness⟩ = .ok t) :
    ∃ tests, Tests strictness f.absentKey parameters tests ∧ t = nest tests := by
  have hcount : f.absentKey.parameterCount = 0 := by cases f <;> rfl
  obtain rfl := List.eq_nil_of_length_eq_zero ((length_of_build h).trans hcount)
  cases f <;> cases h <;> exact ⟨_, .absent _, rfl⟩

theorem addressTest_tests {text : String} (role : Role) (h : addressTest role text = .ok t) :
    ∃ tests, Tests strictness role.searchKey [text] tests ∧ t = nest tests := by
  obtain ⟨a, ha, rfl⟩ := exists_of_read h
  exact ⟨_, .address role ha, rfl⟩

/-- What is built from a criterion is the conjunction of its tests. -/
theorem build_tests {c : Criterion} (h : c.build = .ok t) :
    ∃ tests, Tests c.strictness c.key c.parameters tests ∧ t = nest tests := by
  have hp := length_of_build h
  obtain ⟨key, parameters, strictness⟩ := c
  cases key with
  | all =>
    obtain rfl := List.eq_nil_of_length_eq_zero hp
    cases h
    exact ⟨_, .all, rfl⟩
  | answered => exact build_present_tests .answered h
  | deleted => exact build_present_tests .deleted h
  | draft => exact build_present_tests .draft h
  | flagged => exact build_present_tests .flagged h
  | recent => exact build_present_tests .recent h
  | seen => exact build_present_tests .seen h
  | unanswered => exact build_absent_tests .answered h
  | undeleted => exact build_absent_tests .deleted h
  | undraft => exact build_absent_tests .draft h
  | unflagged => exact build_absent_tests .flagged h
  | old => exact build_absent_tests .recent h
  | unseen => exact build_absent_tests .seen h
  | new =>
    obtain rfl := List.eq_nil_of_length_eq_zero hp
    cases h
    exact ⟨_, .new, rfl⟩
  | keyword =>
    obtain ⟨name, rfl⟩ := List.length_eq_one_iff.mp hp
    obtain ⟨flag, hflag, rfl⟩ := keywordTest_eq_ok h
    exact ⟨_, .keyword hflag, rfl⟩
  | unkeyword =>
    obtain ⟨name, rfl⟩ := List.length_eq_one_iff.mp hp
    obtain ⟨flag, hflag, rfl⟩ := keywordTest_eq_ok h
    exact ⟨_, .unkeyword hflag, rfl⟩
  | sender =>
    obtain ⟨text, rfl⟩ := List.length_eq_one_iff.mp hp
    exact addressTest_tests .sender h
  | recipient =>
    obtain ⟨text, rfl⟩ := List.length_eq_one_iff.mp hp
    exact addressTest_tests .recipient h
  | cc =>
    obtain ⟨text, rfl⟩ := List.length_eq_one_iff.mp hp
    exact addressTest_tests .cc h
  | bcc =>
    obtain ⟨text, rfl⟩ := List.length_eq_one_iff.mp hp
    exact addressTest_tests .bcc h
  | subject =>
    obtain ⟨text, rfl⟩ := List.length_eq_one_iff.mp hp
    obtain ⟨needle, hneedle, rfl⟩ := exists_of_read h
    exact ⟨_, .subject hneedle, rfl⟩
  | header =>
    obtain ⟨field, text, rfl⟩ := List.length_eq_two.mp hp
    obtain ⟨needle, hneedle, rfl⟩ := exists_of_read h
    exact ⟨_, .header hneedle, rfl⟩
  | uid =>
    obtain ⟨text, rfl⟩ := List.length_eq_one_iff.mp hp
    obtain ⟨set, hset, rfl⟩ := exists_of_read h
    exact ⟨_, .uid hset, rfl⟩

theorem Tests.single (h : Tests strictness key parameters tests) :
    ∀ l ∈ tests, l ≠ .all ∧ l.leaves = [l] := by
  cases h <;> simp [leaves]

theorem Tests.eq_nil_iff (h : Tests strictness key parameters tests) :
    tests = [] ↔ key = .all := by
  cases h with
  | all => exact iff_of_true rfl rfl
  | present f | absent f => cases f <;> exact iff_of_false nofun nofun
  | address role => cases role <;> exact iff_of_false nofun nofun
  | _ => exact iff_of_false nofun nofun

theorem Tests.nest_ne_all (h : Tests strictness key parameters tests) (hne : tests ≠ []) :
    nest tests ≠ .all :=
  Term.nest_ne_all (fun l hl => (h.single l hl).1) hne

theorem Tests.leaves_nest (h : Tests strictness key parameters tests) (hne : tests ≠ []) :
    (nest tests).leaves = tests := by
  rw [Term.leaves_nest hne]
  exact flatMap_leaves_of_single fun l hl => (h.single l hl).2

end Criterion

namespace TestedBy

theorem forall_eq_nil_iff (h : TestedBy strictness criteria groups) :
    (∀ tests ∈ groups, tests = []) ↔ ∀ c ∈ criteria, c.1 = .all := by
  induction h with
  | nil => simp
  | cons hc _ ih => rw [List.forall_mem_cons, List.forall_mem_cons, ih, hc.eq_nil_iff]

theorem ne_all_of_mem_members (h : TestedBy strictness criteria groups) :
    ∀ t ∈ members groups, t ≠ .all := by
  induction h with
  | nil => nofun
  | @cons c tests _ _ hc _ ih =>
    by_cases hne : tests = []
    · subst hne
      rw [members_nil_cons]
      exact ih
    · rw [members_cons hne]
      exact List.forall_mem_cons.mpr ⟨hc.nest_ne_all hne, ih⟩

theorem flatMap_leaves_members (h : TestedBy strictness criteria groups) :
    (members groups).flatMap leaves = groups.flatten := by
  induction h with
  | nil => rfl
  | @cons c tests _ _ hc _ ih =>
    by_cases hne : tests = []
    · subst hne
      rw [members_nil_cons]
      exact ih
    · rw [members_cons hne, List.flatMap_cons, hc.leaves_nest hne, ih, List.flatten_cons]

theorem nest_members_eq_all_iff (h : TestedBy strictness criteria groups) :
    nest (members groups) = .all ↔ ∀ c ∈ criteria, c.1 = .all := by
  rw [← h.forall_eq_nil_iff, ← members_eq_nil_iff]
  constructor
  · intro hall
    by_cases hne : members groups = []
    · exact hne
    · exact absurd hall (nest_ne_all h.ne_all_of_mem_members hne)
  · intro hnil
    rw [hnil]
    rfl

theorem leaves_nest_members (h : TestedBy strictness criteria groups)
    (hne : nest (members groups) ≠ .all) : (nest (members groups)).leaves = groups.flatten := by
  have hmembers : members groups ≠ [] := fun hnil => hne (congrArg nest hnil)
  rw [leaves_nest hmembers, h.flatMap_leaves_members]

theorem all_not_mem_flatten (h : TestedBy strictness criteria groups) :
    .all ∉ groups.flatten := by
  induction h with
  | nil => nofun
  | cons hc _ ih =>
    rw [List.flatten_cons, List.mem_append]
    exact not_or.mpr ⟨fun hall => (hc.single _ hall).1 rfl, ih⟩

end TestedBy

/-- Each criterion that tests anything adds a member at the right end. -/
theorem compileOnto_shape (hreads : ReadsAs tokens criteria) (hts : ∀ t ∈ ts, t ≠ .all)
    (h : compileOnto strictness (nest ts) tokens = .ok t) :
    ∃ groups, TestedBy strictness criteria groups ∧ t = nest (ts ++ members groups) := by
  induction hreads generalizing ts with
  | nil =>
    rw [compileOnto] at h
    cases h
    exact ⟨[], .nil, by simp [members]⟩
  | cons hk hp _ ih =>
    obtain ⟨u, hb, hrest⟩ := (compileOnto_eq_ok_iff hk hp).mp h
    obtain ⟨tests, htests, rfl⟩ := Criterion.build_tests hb
    by_cases hne : tests = []
    · subst hne
      rw [nest, conj_all] at hrest
      obtain ⟨groups, hgroups, rfl⟩ := ih hts hrest
      exact ⟨[] :: groups, .cons htests hgroups, rfl⟩
    · have hu := htests.nest_ne_all hne
      rw [conj_nest hts hu] at hrest
      have hts' : ∀ t ∈ ts ++ [nest tests], t ≠ .all :=
        List.forall_mem_append.mpr ⟨hts, List.forall_mem_singleton.mpr hu⟩
      obtain ⟨groups, hgroups, rfl⟩ := ih hts' hrest
      refine ⟨tests :: groups, .cons htests hgroups, ?_⟩
      rw [members_cons hne, List.append_assoc]
      rfl

theorem compile_shape (h : compile strictness tokens = .ok t) :
    ∃ criteria groups, ReadsAs tokens criteria ∧ TestedBy strictness criteria groups ∧
      t = nest (members groups) := by
  obtain ⟨criteria, hreads, -⟩ := compile_holds h
  have hnone : ∀ u ∈ ([] : List Term), u ≠ .all := nofun
  obtain ⟨groups, hgroups, ht⟩ := compileOnto_shape hreads hnone h
  exact ⟨criteria, groups, hreads, hgroups, ht⟩

/-- At the front, `NEW` is `RECENT UNSEEN`. -/
theorem compile_new_cons {new recent unseen : String} {rest : List String}
    (hnew : lowerAscii SearchKey.new.name = lowerAscii new)
    (hrecent : lowerAscii SearchKey.recent.name = lowerAscii recent)
    (hunseen : lowerAscii SearchKey.unseen.name = lowerAscii unseen) :
    compile strictness (new :: rest) = compile strictness (recent :: unseen :: rest) := by
  have hone {token : String} {key : SearchKey} {term u : Term} {rest : List String}
      (hk : lowerAscii key.name = lowerAscii token) (hp : key.parameterCount = 0)
      (hb : Criterion.build ⟨key, [], strictness⟩ = .ok u) :
      compileOnto strictness term (token :: rest) = compileOnto strictness (term.conj u) rest := by
    have hcount : ([] : List String).length = key.parameterCount := hp.symm
    refine (compileOnto_criterion hk hcount).trans ?_
    rw [hb]
    rfl
  have hpair : compile strictness (new :: rest) = compileOnto strictness
      (.and (.flagIs (.system .recent) true) (.flagIs (.system .seen) false)) rest :=
    hone hnew rfl rfl
  have hfirst : compile strictness (recent :: unseen :: rest) =
      compileOnto strictness (.flagIs (.system .recent) true) (unseen :: rest) :=
    hone hrecent rfl rfl
  rw [hpair, hfirst]
  exact Eq.symm (hone hunseen rfl rfl)

end MailSearch
