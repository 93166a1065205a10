import Mathlib.Data.List.Basic
import MailSearch.Criterion

/-! # How a criterion is put together

A criterion takes tokens for its parameters until it has as many as its key asks for. With just so
many it builds what its key makes of them; with any other number it is refused for the number.
-/

namespace MailSearch

namespace Criterion

variable {c : Criterion} {key : SearchKey} {parameters tokens : List String} {t : Term}

theorem wantsParameter_iff : c.wantsParameter = true ↔ c.parameters.length < c.key.parameterCount :=
  decide_eq_true_iff

theorem fill_of_wantsParameter (hw : c.wantsParameter = true) (token : String)
    (rest : List String) : c.fill (token :: rest) = (c.add token).fill rest :=
  if_pos hw

theorem fill_of_not_wantsParameter (hw : ¬ c.wantsParameter = true) :
    c.fill tokens = .ok (c, tokens) := by
  cases tokens with
  | nil => exact if_neg hw
  | cons token rest => exact if_neg hw

theorem fill_append (h : (c.parameters ++ parameters).length = c.key.parameterCount)
    (rest : List String) :
    c.fill (parameters ++ rest) =
      .ok ({ c with parameters := c.parameters ++ parameters }, rest) := by
  induction parameters generalizing c with
  | nil =>
    rw [List.append_nil] at h
    have hw : ¬ c.wantsParameter = true := fun hw => Nat.ne_of_lt (wantsParameter_iff.mp hw) h
    simpa using fill_of_not_wantsParameter hw
  | cons p parameters ih =>
    have hw : c.wantsParameter = true := by
      rw [wantsParameter_iff, ← h, List.length_append, List.length_cons]
      omega
    rw [List.cons_append, fill_of_wantsParameter hw, ih (by simpa [add] using h)]
    simp [add]

theorem fill_of_missing (h : (c.parameters ++ tokens).length < c.key.parameterCount) :
    c.fill tokens = .error (.missingParameter c.key) := by
  induction tokens generalizing c with
  | nil => exact if_pos (wantsParameter_iff.mpr (by simpa using h))
  | cons token rest ih =>
    have hw : c.wantsParameter = true := by
      rw [List.length_append] at h
      exact wantsParameter_iff.mpr (by omega)
    rw [fill_of_wantsParameter hw]
    exact ih (by simpa [add] using h)

variable [MatcherLimit]

theorem strategy_isSome_iff : (strategy c.key c.strictness c.parameter?).isSome = true ↔
    c.key.parameterCount ≤ c.parameters.length := by
  obtain ⟨key, parameters, strictness⟩ := c
  cases key with
  | all | answered | deleted | draft | flagged | new | old | recent | seen | unanswered | undeleted
  | undraft | unflagged | unseen => exact iff_of_true rfl (Nat.zero_le _)
  | bcc | cc | sender | recipient | subject | keyword | unkeyword | uid =>
    cases parameters with
    | nil => exact iff_of_false nofun (Nat.not_succ_le_zero _)
    | cons p parameters => exact iff_of_true rfl (Nat.le_add_left _ _)
  | header =>
    match parameters with
    | [] => exact iff_of_false nofun (Nat.not_succ_le_zero _)
    | [_] => exact iff_of_false nofun (Nat.not_succ_le_self _)
    | _ :: _ :: _ => exact iff_of_true rfl (Nat.le_add_left _ _)

/-- With all of its parameters a criterion builds what its key makes of them. -/
theorem strategy_eq_build (h : c.parameters.length = c.key.parameterCount) :
    strategy c.key c.strictness c.parameter? = some c.build := by
  have hsome := strategy_isSome_iff.mpr (Nat.le_of_eq h.symm)
  obtain ⟨built, hbuilt⟩ := Option.isSome_iff_exists.mp hsome
  rw [build, if_pos h, hbuilt, Option.getD_some]

theorem build_of_length_ne (h : c.parameters.length ≠ c.key.parameterCount) :
    c.build = .error (.wrongParameterCount c.key c.key.parameterCount c.parameters.length) := by
  rw [build, if_neg h, Option.getD_none]

theorem length_of_build (h : c.build = .ok t) : c.parameters.length = c.key.parameterCount := by
  by_contra hne
  rw [build_of_length_ne hne] at h
  cases h

end Criterion

section

variable [MatcherLimit] {strictness : Strictness} {term : Term} {key : SearchKey} {token : String}
  {parameters rest : List String}

/-- Tokens compile by a loop: a key, its parameters, and then the tokens after them. -/
theorem compileOnto_cons (strictness : Strictness) (term : Term) (token : String)
    (rest : List String) :
    compileOnto strictness term (token :: rest) = (do
      let c ← Criterion.ofToken token strictness
      let (c, rest) ← c.fill rest
      compileOnto strictness (term.conj (← c.build)) rest) := by
  rw [compileOnto]
  cases Criterion.ofToken token strictness with
  | error e => rfl
  | ok c =>
    simp only [bind, Except.bind]
    split <;> rename_i hfill <;> rw [hfill]

theorem compileOnto_of_unknown (hk : SearchKey.ofToken? token = none) :
    compileOnto strictness term (token :: rest) = .error (.unknownKey token) := by
  simp only [compileOnto_cons, Criterion.ofToken, hk]
  rfl

theorem compileOnto_of_missing (hk : SearchKey.ofToken? token = some key)
    (hlt : rest.length < key.parameterCount) :
    compileOnto strictness term (token :: rest) = .error (.missingParameter key) := by
  have hfill : Criterion.fill { key, strictness } rest = .error (.missingParameter key) :=
    Criterion.fill_of_missing hlt
  simp only [compileOnto_cons, Criterion.ofToken, hk]
  simp only [bind, Except.bind, hfill]

theorem compileOnto_of_filled (hk : SearchKey.ofToken? token = some key)
    (hp : parameters.length = key.parameterCount) :
    compileOnto strictness term (token :: (parameters ++ rest)) =
      Criterion.build ⟨key, parameters, strictness⟩ >>= fun u =>
        compileOnto strictness (term.conj u) rest := by
  have hfill := Criterion.fill_append (c := { key, strictness }) hp rest
  simp only [List.nil_append] at hfill
  simp only [compileOnto_cons, Criterion.ofToken, hk]
  simp only [bind, Except.bind, hfill]

end

end MailSearch
