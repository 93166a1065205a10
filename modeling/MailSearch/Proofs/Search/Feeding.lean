import MailSearch.Proofs.Search.Outcome

/-! # Criteria that are fed

A criterion starts with a key alone and is fed its parameters one by one. It wants more until it has
as many as the key asks for, and only then does it build; its term looks the parameters up by their
positions and finds each of them. Tokens compile by every criterion taking its own from the list.
-/

namespace MailSearch

namespace Criterion

def fed (key : SearchKey) (strictness : Strictness) (parameters : List String) : Criterion :=
  parameters.foldl add { key, strictness }

variable {c : Criterion} {key : SearchKey} {strictness : Strictness}
  {parameters tokens : List String}

theorem foldl_add (c : Criterion) (parameters : List String) :
    parameters.foldl add c = { c with parameters := c.parameters ++ parameters } := by
  induction parameters generalizing c with
  | nil => simp
  | cons p parameters ih => simp [ih, add]

theorem fed_eq : fed key strictness parameters = ⟨key, parameters, strictness⟩ :=
  foldl_add _ parameters

theorem parameter?_fed (before : List String) (i : Nat) :
    (fed key strictness before).parameter? i = before[i]? := by
  rw [fed_eq]
  rfl

variable [MatcherLimit]

theorem build_wrongParameterCount_iff {key : SearchKey} {expected actual : Nat} :
    c.build = .error (.wrongParameterCount key expected actual) ↔
      c.parameters.length ≠ c.key.parameterCount ∧ key = c.key ∧ expected = c.key.parameterCount ∧
        actual = c.parameters.length := by
  by_cases hp : c.parameters.length = c.key.parameterCount
  · refine iff_of_false (fun h => ?_) fun h => h.1 hp
    exact ((build_error_iff hp).mp h).blames.2 key expected actual rfl
  · rw [build_of_length_ne hp]
    constructor
    · rintro ⟨⟩
      exact ⟨hp, rfl, rfl, rfl⟩
    · rintro ⟨-, rfl, rfl, rfl⟩
      rfl

end Criterion

/-- A criterion wants as many parameters as its key asks for, refuses any other number, and builds
from their positions. -/
theorem criterion_fed [MatcherLimit] (key : SearchKey) (strictness : Strictness)
    (parameters : List String) :
    (∀ before, before <+: parameters →
      (Criterion.fed key strictness before).key = key ∧
      ((Criterion.fed key strictness before).wantsParameter = true ↔
        before.length < key.parameterCount) ∧
      (∀ i, i < before.length →
        (Criterion.fed key strictness before).parameter? i = parameters[i]?) ∧
      ∀ i, before.length ≤ i → (Criterion.fed key strictness before).parameter? i = none) ∧
    (∀ k expected actual, (Criterion.fed key strictness parameters).build =
        .error (.wrongParameterCount k expected actual) ↔
      parameters.length ≠ key.parameterCount ∧ k = key ∧ expected = key.parameterCount ∧
        actual = parameters.length) ∧
    ((Criterion.strategy key strictness
        (Criterion.fed key strictness parameters).parameter?).isSome = true ↔
      key.parameterCount ≤ parameters.length) ∧
    (parameters.length = key.parameterCount →
      Criterion.strategy key strictness (Criterion.fed key strictness parameters).parameter? =
        some (Criterion.fed key strictness parameters).build ∧
      ∀ token, lowerAscii key.name = lowerAscii token →
        (Criterion.fed key strictness parameters).build =
          compile strictness (token :: parameters)) ∧
    ∀ (term : Term) (token : String) (rest : List String),
      compileOnto strictness term (token :: rest) = (do
        let c ← Criterion.ofToken token strictness
        let (c, rest) ← c.fill rest
        compileOnto strictness (term.conj (← c.build)) rest) := by
  refine ⟨fun before hbefore => ?_, ?_, ?_, fun hp => ⟨?_, fun token hk => ?_⟩,
    compileOnto_cons strictness⟩
  · refine ⟨by rw [Criterion.fed_eq], by rw [Criterion.fed_eq, Criterion.wantsParameter_iff],
      fun i hi => ?_, fun i hi => ?_⟩
    · obtain ⟨after, rfl⟩ := hbefore
      rw [Criterion.parameter?_fed, List.getElem?_append_left hi]
    · rw [Criterion.parameter?_fed, List.getElem?_eq_none hi]
  · intro k expected actual
    rw [Criterion.fed_eq]
    exact Criterion.build_wrongParameterCount_iff
  · rw [Criterion.fed_eq]
    exact Criterion.strategy_isSome_iff (c := ⟨key, parameters, strictness⟩)
  · rw [Criterion.fed_eq]
    exact Criterion.strategy_eq_build (c := ⟨key, parameters, strictness⟩) hp
  · rw [Criterion.fed_eq, compile_criterion hk hp]

end MailSearch
