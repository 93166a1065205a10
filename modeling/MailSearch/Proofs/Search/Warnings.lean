import MailSearch.Proofs.Search.Hits

/-! # Warnings

The verdict on a message is that of the first leaf of the term that the message does not meet. Only
a test of UIDs warns, and only of a message without a UID, which it never meets: so there is one
warning at most, and no hit where there is one.
-/

namespace MailSearch

namespace Term

def leaves : Term → List Term
  | and t u => t.leaves ++ u.leaves
  | t => [t]

/-- When a message meets a term, in whatever order it is tested. -/
def Met (m : Message) : Term → Prop
  | all => True
  | flagIs flag present => m.hasFlag flag = present
  | headerContains field needle => ∃ value ∈ m.values field, needle.isFoundIn value = true
  | addressIs role address => ∃ a ∈ m.addresses role, a.sameAs address = true
  | uidIn set => ∃ uid, m.uid = some uid ∧ uid ∈ set
  | and t u => t.Met m ∧ u.Met m

/-- The leaf is not met, and all leaves to the left of it are. -/
def FirstUnmet (m : Message) (t leaf : Term) : Prop :=
  ∃ before after, t.leaves = before ++ leaf :: after ∧ (∀ l ∈ before, l.Met m) ∧ ¬ leaf.Met m

def firstUnmet? (m : Message) (t : Term) : Option Term := t.leaves.find? fun leaf => !leaf.holds m

variable {m : Message} {t u leaf : Term}

theorem holds_iff_met : t.holds m = true ↔ t.Met m := by
  induction t with
  | all => exact iff_of_true rfl trivial
  | flagIs flag present => exact holds_flagIs
  | headerContains field needle => exact List.any_eq_true
  | addressIs role address => exact List.any_eq_true
  | uidIn set =>
    simp only [holds, eval, Met]
    cases m.uid with
    | none => simp
    | some uid => simp [UidSet.contains_iff_mem]
  | and t u iht ihu => rw [holds_and, Bool.and_eq_true, iht, ihu, Met]

theorem firstUnmet?_eq_some_iff : firstUnmet? m t = some leaf ↔ FirstUnmet m t leaf := by
  simp only [firstUnmet?, FirstUnmet, List.find?_eq_some_iff_append, Bool.not_not, ← holds_iff_met,
    Bool.not_eq_true, Bool.not_eq_true']
  constructor
  · rintro ⟨hleaf, before, after, he, hbefore⟩
    exact ⟨before, after, he, hbefore, hleaf⟩
  · rintro ⟨before, after, he, hbefore, hleaf⟩
    exact ⟨hleaf, before, after, he, hbefore⟩

theorem eval_and_of_holds (h : t.eval m = ⟨true, []⟩) : (t.and u).eval m = u.eval m := by
  rw [eval, h]
  rfl

theorem eval_and_of_not_holds (h : t.holds m = false) : (t.and u).eval m = t.eval m := by
  rw [holds] at h
  simp [eval, h]

theorem eval_of_holds (h : t.holds m = true) : t.eval m = ⟨true, []⟩ := by
  induction t with
  | all => rfl
  | flagIs flag present => exact congrArg (Verdict.mk · []) h
  | headerContains field needle => exact congrArg (Verdict.mk · []) h
  | addressIs role address => exact congrArg (Verdict.mk · []) h
  | uidIn set =>
    obtain ⟨uid, hu, -⟩ := holds_iff_met.mp h
    simp only [holds, eval, hu] at h ⊢
    rw [h]
  | and t u iht ihu =>
    obtain ⟨ht, hu⟩ := Bool.and_eq_true_iff.mp (holds_and.symm.trans h)
    rw [eval_and_of_holds (iht ht), ihu hu]

theorem eval_of_single (h : t.leaves = [t]) :
    t.eval m = ((firstUnmet? m t).map (eval m)).getD ⟨true, []⟩ := by
  cases ht : t.holds m with
  | false => simp [firstUnmet?, h, ht]
  | true => simp [firstUnmet?, h, ht, eval_of_holds ht]

/-- Evaluation comes down to one leaf. -/
theorem eval_eq_firstUnmet (t : Term) :
    t.eval m = ((firstUnmet? m t).map (eval m)).getD ⟨true, []⟩ := by
  induction t with
  | and t u iht ihu =>
    have happend : firstUnmet? m (t.and u) = (firstUnmet? m t).or (firstUnmet? m u) :=
      List.find?_append
    cases hf : firstUnmet? m t with
    | none =>
      rw [hf] at iht
      rw [happend, hf, Option.none_or, ← ihu, eval_and_of_holds iht]
    | some leaf =>
      rw [hf] at iht
      have hleaf : leaf.holds m = false := by simpa using List.find?_some hf
      have ht : t.holds m = false := (congrArg Verdict.hit iht).trans hleaf
      rw [happend, hf, Option.some_or, eval_and_of_not_holds ht, iht]
  | _ => exact eval_of_single rfl

theorem not_and_mem_leaves {a b : Term} : a.and b ∉ t.leaves := by
  induction t with
  | and t u iht ihu =>
    rw [leaves, List.mem_append]
    exact not_or.mpr ⟨iht, ihu⟩
  | _ => simp [leaves]

theorem warnings_eq (m : Message) (t : Term) :
    ((t.eval m).warnings = [.noUid m.logName] ∧
      m.uid = none ∧ ∃ set, FirstUnmet m t (uidIn set)) ∨
    ((t.eval m).warnings = [] ∧ ¬ (m.uid = none ∧ ∃ set, FirstUnmet m t (uidIn set))) := by
  have hfirst {set : UidSet} (h : FirstUnmet m t (uidIn set)) :
      firstUnmet? m t = some (uidIn set) := firstUnmet?_eq_some_iff.mpr h
  rw [eval_eq_firstUnmet t]
  cases hf : firstUnmet? m t with
  | none =>
    refine .inr ⟨rfl, ?_⟩
    rintro ⟨-, set, h⟩
    cases hf.symm.trans (hfirst h)
  | some leaf =>
    cases leaf with
    | uidIn set =>
      cases hu : m.uid with
      | none =>
        refine .inl ⟨?_, rfl, set, firstUnmet?_eq_some_iff.mp hf⟩
        simp [eval, hu]
      | some uid =>
        refine .inr ⟨?_, by simp⟩
        simp [eval, hu]
    | and a b => exact absurd (List.mem_of_find?_eq_some hf) not_and_mem_leaves
    | all | flagIs | headerContains | addressIs =>
      refine .inr ⟨rfl, ?_⟩
      rintro ⟨-, set, h⟩
      cases hf.symm.trans (hfirst h)

theorem length_warnings_le_one : (t.eval m).warnings.length ≤ 1 := by
  rcases warnings_eq m t with ⟨hw, -⟩ | ⟨hw, -⟩ <;> simp [hw]

theorem length_warnings_eq_one_iff :
    (t.eval m).warnings.length = 1 ↔ m.uid = none ∧ ∃ set, FirstUnmet m t (uidIn set) := by
  rcases warnings_eq m t with ⟨hw, h⟩ | ⟨hw, h⟩
  · exact iff_of_true (by rw [hw]; rfl) h
  · exact iff_of_false (by rw [hw]; exact Nat.zero_ne_one) h

theorem eq_noUid_of_mem_warnings {w : Warning} (h : w ∈ (t.eval m).warnings) :
    w = .noUid m.logName := by
  rcases warnings_eq m t with ⟨hw, -⟩ | ⟨hw, -⟩ <;> rw [hw] at h
  · exact List.mem_singleton.mp h
  · cases h

theorem warnings_of_uid (h : m.uid ≠ none) : (t.eval m).warnings = [] := by
  rcases warnings_eq m t with ⟨-, hnone, -⟩ | ⟨hw, -⟩
  · exact absurd hnone h
  · exact hw

theorem not_holds_of_warnings_ne_nil (h : (t.eval m).warnings ≠ []) : t.holds m = false := by
  rw [Bool.eq_false_iff]
  intro ht
  rw [eval_of_holds ht] at h
  exact h rfl

theorem Met.of_mem_leaves (h : t.Met m) (hleaf : leaf ∈ t.leaves) : leaf.Met m := by
  induction t with
  | and t u iht ihu =>
    rcases List.mem_append.mp hleaf with hleaf | hleaf
    · exact iht h.1 hleaf
    · exact ihu h.2 hleaf
  | _ =>
    obtain rfl := List.mem_singleton.mp hleaf
    exact h

theorem not_holds_of_uidIn (hu : m.uid = none) {set : UidSet} (h : uidIn set ∈ t.leaves) :
    t.holds m = false := by
  rw [Bool.eq_false_iff]
  intro ht
  obtain ⟨uid, huid, -⟩ := (holds_iff_met.mp ht).of_mem_leaves h
  cases hu.symm.trans huid

section Search

variable {messages : List Message} {order : List Nat}

theorem warnings_search (t : Term) (messages : List Message) :
    (t.search messages).warnings = messages.flatMap fun m => (t.eval m).warnings := by
  unfold search searchIn
  dsimp only
  induction messages with
  | nil => rfl
  | cons m messages ih =>
    rw [List.length_cons, List.range_succ_eq_map, List.flatMap_cons, List.flatMap_map,
      List.flatMap_cons, ← ih]
    rfl

theorem warnings_searchIn_perm (ho : order.Perm (List.range messages.length)) :
    (t.searchIn messages order).warnings.Perm (t.search messages).warnings :=
  ho.flatMap_right _

theorem not_mem_positions_of_warnings_ne_nil {i : Nat}
    (ho : order.Perm (List.range messages.length)) (hm : messages[i]? = some m)
    (hw : (t.eval m).warnings ≠ []) :
    i ∉ (t.searchIn messages order).positions := by
  intro hi
  obtain ⟨m', hm', hholds⟩ := (mem_searchIn ho).mp hi
  obtain rfl := Option.some.inj (hm.symm.trans hm')
  rw [not_holds_of_warnings_ne_nil hw] at hholds
  cases hholds

end Search

/-- A message gets a warning exactly if the first leaf that it does not meet is a test of a UID that
it lacks. -/
theorem warns_once_iff (t : Term) :
    (∀ m, (t.eval m).warnings.length ≤ 1 ∧
      ((t.eval m).warnings.length = 1 ↔ m.uid = none ∧ ∃ set, FirstUnmet m t (uidIn set)) ∧
      (∀ w ∈ (t.eval m).warnings, w = .noUid m.logName ∧ t.holds m = false) ∧
      (m.uid ≠ none → (t.eval m).warnings = []) ∧
      (m.uid = none → ∀ set, uidIn set ∈ t.leaves → t.holds m = false)) ∧
    ∀ messages order, order.Perm (List.range messages.length) →
      (t.searchIn messages order).warnings.Perm
        (messages.flatMap fun m => (t.eval m).warnings) ∧
      (t.searchIn messages order).warnings.Perm (t.search messages).warnings ∧
      ∀ i m, messages[i]? = some m → (t.eval m).warnings ≠ [] →
        i ∉ (t.searchIn messages order).positions := by
  refine ⟨fun m => ?_, fun messages order ho => ?_⟩
  · refine ⟨length_warnings_le_one, length_warnings_eq_one_iff, fun w hw => ?_, warnings_of_uid,
      fun hu set => not_holds_of_uidIn hu⟩
    exact ⟨eq_noUid_of_mem_warnings hw, not_holds_of_warnings_ne_nil (List.ne_nil_of_mem hw)⟩
  · have hperm := warnings_searchIn_perm (t := t) ho
    refine ⟨?_, hperm, fun i m => not_mem_positions_of_warnings_ne_nil ho⟩
    rwa [warnings_search] at hperm

/-- Two messages, looked at from last to first, of which one has no UID. -/
theorem warns_once_iff_reversed :
    ∃ (t : Term) (m m' : Message), m.uid = none ∧ m'.uid = some .greatest ∧
      [1, 0].Perm (List.range [m, m'].length) ∧
      (t.searchIn [m, m'] [1, 0]).warnings.Perm [.noUid "<a@b>"] ∧
      0 ∉ (t.searchIn [m, m'] [1, 0]).positions := by
  have hperm : [1, 0].Perm (List.range 2) := by decide
  obtain ⟨hwarnings, -, hhits⟩ := (warns_once_iff
    (((flagIs (.system .seen) false).and (uidIn (.range .greatest .greatest))).and
      (flagIs (.system .seen) true))).2
    [Message.empty.addField ⟨"message-id", "<a@b>"⟩, Message.empty.setUid (some .greatest)]
    [1, 0] hperm
  refine ⟨_, _, _, rfl, rfl, hperm, ?_, hhits 0 _ rfl ?_⟩
  · exact hwarnings
  · decide

end Term

end MailSearch
