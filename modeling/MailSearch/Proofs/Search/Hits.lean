import Mathlib.Data.List.Sort
import MailSearch.Needle.Weight
import MailSearch.Proofs.Search.Meaning

/-! # What a search finds

The hits of a search are the positions of the messages that meet all criteria, each once and in
ascending order, in whatever order the messages are looked at.
-/

namespace MailSearch

variable {t : Term} {messages : List Message} {order : List Nat}

theorem Term.mem_searchIn {i : Nat} (ho : order.Perm (List.range messages.length)) :
    i ∈ (t.searchIn messages order).positions ↔
      ∃ m, messages[i]? = some m ∧ t.holds m = true := by
  rw [searchIn, List.mem_mergeSort, List.mem_filter, ho.mem_iff, List.mem_range]
  constructor
  · rintro ⟨hi, hh⟩
    rw [List.getElem?_eq_getElem hi] at hh ⊢
    exact ⟨_, rfl, hh⟩
  · rintro ⟨m, hm, hh⟩
    obtain ⟨hi, rfl⟩ := List.getElem?_eq_some_iff.mp hm
    exact ⟨hi, by simpa [hm] using hh⟩

theorem Term.searchIn_ascending (ho : order.Perm (List.range messages.length)) :
    (t.searchIn messages order).positions.Pairwise (· < ·) := by
  have hsorted : (t.searchIn messages order).positions.Pairwise fun a b => decide (a ≤ b) = true :=
    List.pairwise_mergeSort
      (fun a b c h h' => by simp only [decide_eq_true_eq] at *; omega)
      (fun a b => by simp only [Bool.or_eq_true, decide_eq_true_eq]; omega) _
  have hnodup : (t.searchIn messages order).positions.Nodup :=
    (List.mergeSort_perm ..).nodup_iff.mpr ((ho.nodup_iff.mpr List.nodup_range).filter _)
  refine (hsorted.and hnodup).imp fun {a b} h => ?_
  have := of_decide_eq_true h.1
  have := h.2
  omega

/-- The order of evaluation does not show in the hits. -/
theorem Term.searchIn_eq_search (ho : order.Perm (List.range messages.length)) :
    (t.searchIn messages order).positions = (t.search messages).positions := by
  have hsearch : (t.search messages).positions.Pairwise (· < ·) :=
    t.searchIn_ascending (List.Perm.refl _)
  refine (t.searchIn_ascending ho).eq_of_mem_iff hsearch fun i => ?_
  rw [t.mem_searchIn ho, search, t.mem_searchIn (List.Perm.refl _)]

theorem Term.positions_searchBy [WorkerPool] (sequential : Bool) (t : Term)
    (messages : List Message) :
    (t.searchBy sequential messages).positions = (t.search messages).positions := by
  cases sequential with
  | true => rfl
  | false => exact t.searchIn_eq_search (WorkerPool.perm _)

variable {strictness : Strictness} {tokens : List String}

/-- Tokens are cut into criteria in one way, and the hits are the messages that satisfy all of them.
-/
theorem hits_of_compile [MatcherLimit] (h : compile strictness tokens = .ok t) :
    ∃ criteria, ReadsAs tokens criteria ∧
      (∀ criteria', ReadsAs tokens criteria' → criteria' = criteria) ∧
      ∀ messages order, order.Perm (List.range messages.length) →
        (t.searchIn messages order).positions = (t.search messages).positions ∧
        (t.search messages).positions.Pairwise (· < ·) ∧
        ∀ i, i ∈ (t.search messages).positions ↔
          ∃ m, messages[i]? = some m ∧ ∀ c ∈ criteria, Satisfies strictness m c.1 c.2 := by
  obtain ⟨criteria, hreads, hmeans⟩ := compile_holds h
  refine ⟨criteria, hreads, fun _ h' => h'.unique hreads, fun messages order ho => ?_⟩
  refine ⟨t.searchIn_eq_search ho, t.searchIn_ascending (List.Perm.refl _), fun i => ?_⟩
  rw [Term.search, t.mem_searchIn (List.Perm.refl _)]
  simp only [hmeans]

/-- A parameter may look like a key. -/
theorem hits_of_compile_keyword_new :
    ∃ t, compile ⟨true, true⟩ ["uid", "2:*", "KEYWORD", "NEW"] = .ok t ∧
      ∀ messages i, i ∈ (t.search messages).positions ↔
        ∃ m, messages[i]? = some m ∧ m.UidWithin "2:*" ∧ m.FlagNamed "NEW" true := by
  have hcompiles : (compile ⟨true, true⟩ ["uid", "2:*", "KEYWORD", "NEW"]).isOk = true := by
    decide +kernel
  cases ht : compile ⟨true, true⟩ ["uid", "2:*", "KEYWORD", "NEW"] with
  | error e => rw [ht] at hcompiles; cases hcompiles
  | ok t =>
    obtain ⟨criteria, -, hunique, hhits⟩ := hits_of_compile ht
    have hreads : ReadsAs ["uid", "2:*", "KEYWORD", "NEW"]
        [(.uid, ["2:*"]), (.keyword, ["NEW"])] :=
      @ReadsAs.cons _ _ ["2:*"] _ _ (by decide) rfl
        (@ReadsAs.cons _ _ ["NEW"] [] _ (by decide) rfl .nil)
    obtain rfl := hunique _ hreads
    refine ⟨t, rfl, fun messages i => ?_⟩
    simpa [Satisfies] using (hhits messages _ (List.Perm.refl _)).2.2 i

end MailSearch
