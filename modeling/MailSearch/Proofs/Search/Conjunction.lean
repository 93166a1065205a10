import MailSearch.Needle.Weight
import MailSearch.Proofs.Search.Hits
import MailSearch.Proofs.Search.Outcome

/-! # Criteria taken together

Lists of tokens that compile on their own compile one after the other, and together they find what
each of them finds. So of criteria it only counts which they are: not their order, not how often one
of them is there, and not whether `ALL` is among them.
-/

namespace MailSearch

variable {strictness : Strictness} {tokens tokens' a b : List String} {r t u : Term}
  {criteria criteria' before : List (SearchKey × List String)} {c : SearchKey × List String}
  {left : List String} {e : SearchError} {m : Message} {messages : List Message} {order : List Nat}

theorem ReadsAs.append (h : ReadsAs tokens criteria) (h' : ReadsAs tokens' criteria') :
    ReadsAs (tokens ++ tokens') (criteria ++ criteria') := by
  induction h with
  | nil => exact h'
  | cons hk hp _ ih =>
    rw [List.cons_append, List.append_assoc]
    exact .cons hk hp ih

theorem exists_readsAs (h : ∀ c ∈ criteria, c.2.length = c.1.parameterCount) :
    ∃ tokens, ReadsAs tokens criteria := by
  induction criteria with
  | nil => exact ⟨[], .nil⟩
  | cons c criteria ih =>
    obtain ⟨hc, hrest⟩ := List.forall_mem_cons.mp h
    obtain ⟨tokens, htokens⟩ := ih hrest
    exact ⟨c.1.name :: (c.2 ++ tokens), .cons rfl hc htokens⟩

theorem Term.positions_congr (ho : order.Perm (List.range messages.length))
    (h : ∀ m, t.holds m = true ↔ u.holds m = true) :
    (t.searchIn messages order).positions = (u.search messages).positions := by
  refine (t.searchIn_ascending ho).eq_of_mem_iff (u.searchIn_ascending (List.Perm.refl _))
    fun i => ?_
  rw [search, t.mem_searchIn ho, u.mem_searchIn (List.Perm.refl _)]
  simp only [h]

theorem Term.positions_inter (ho : order.Perm (List.range messages.length))
    (h : ∀ m, r.holds m = true ↔ t.holds m = true ∧ u.holds m = true) :
    (r.searchIn messages order).positions =
      (t.search messages).positions ∩ (u.search messages).positions := by
  have hascending : (t.search messages).positions.Pairwise (· < ·) :=
    t.searchIn_ascending (List.Perm.refl _)
  refine (r.searchIn_ascending ho).eq_of_mem_iff (hascending.filter _) fun i => ?_
  rw [List.mem_inter_iff, r.mem_searchIn ho, search, search, t.mem_searchIn (List.Perm.refl _),
    u.mem_searchIn (List.Perm.refl _)]
  constructor
  · rintro ⟨m, hm, hr⟩
    exact ⟨⟨m, hm, ((h m).mp hr).1⟩, m, hm, ((h m).mp hr).2⟩
  · rintro ⟨⟨m, hm, ht⟩, m', hm', hu⟩
    obtain rfl := Option.some.inj (hm.symm.trans hm')
    exact ⟨m, hm, (h m).mpr ⟨ht, hu⟩⟩

/-- Criteria that differ by `ALL` only, in order and in repetitions. -/
def SameCriteria (criteria criteria' : List (SearchKey × List String)) : Prop :=
  ∀ c, c ≠ (.all, []) → (c ∈ criteria' ↔ c ∈ criteria)

namespace SameCriteria

theorem forall_mem {P : SearchKey × List String → Prop} (h : SameCriteria criteria criteria')
    (hall : P (.all, [])) (hP : ∀ c ∈ criteria, P c) : ∀ c ∈ criteria', P c := by
  intro c hc
  by_cases hne : c = (.all, [])
  · rw [hne]
    exact hall
  · exact hP c ((h c hne).mp hc)

theorem symm (h : SameCriteria criteria criteria') : SameCriteria criteria' criteria :=
  fun c hne => (h c hne).symm

theorem exists_readsAs (h : SameCriteria criteria criteria') (hreads : ReadsAs tokens criteria) :
    ∃ tokens', ReadsAs tokens' criteria' :=
  MailSearch.exists_readsAs (h.forall_mem rfl hreads.parameters_length)

end SameCriteria

section

variable [MatcherLimit]

theorem ReadsAs.compile_ok_iff (h : ReadsAs tokens criteria) :
    (∃ t, compile strictness tokens = .ok t) ↔ ∀ c ∈ criteria, Builds strictness c := by
  have hall : (∃ t, compileOnto strictness .all (tokens ++ []) = .ok t) ↔ _ :=
    h.compileOnto_ok_iff (Or.inl rfl)
  rwa [List.append_nil, eq_self, true_and] at hall

theorem ReadsAs.holds_iff (h : ReadsAs tokens criteria) (ht : compile strictness tokens = .ok t) :
    t.holds m = true ↔ ∀ c ∈ criteria, Satisfies strictness m c.1 c.2 := by
  obtain ⟨criteria', h', hmeans⟩ := compile_holds ht
  obtain rfl := h.unique h'
  exact hmeans m

theorem firstFault_append (h : ∀ c ∈ before, Builds strictness c) :
    FirstFault strictness (before ++ criteria) left e ↔ FirstFault strictness criteria left e := by
  induction before with
  | nil => rfl
  | cons c before ih =>
    obtain ⟨⟨t, ht⟩, hbefore⟩ := List.forall_mem_cons.mp h
    have hc : Builds strictness c := ⟨t, ht⟩
    rw [List.cons_append, firstFault_cons, ih hbefore, ht]
    simp [hc]

/-- What compiles is not at fault for what comes after it. -/
theorem compile_append_error_iff (ha : compile strictness a = .ok t) :
    compile strictness (a ++ b) = .error e ↔ compile strictness b = .error e := by
  obtain ⟨before, hbefore, -⟩ := compile_holds ha
  obtain ⟨criteria, left, ⟨used, hused, rfl⟩, hleft⟩ := exists_cut b
  have hbuilds : ∀ c ∈ before, Builds strictness c := hbefore.compile_ok_iff.mp ⟨t, ha⟩
  rw [compile, compile, ← List.append_assoc, (hbefore.append hused).compileOnto_error_iff hleft,
    hused.compileOnto_error_iff hleft, firstFault_append hbuilds]

theorem exists_compile_append (ha : compile strictness a = .ok t)
    (hb : compile strictness b = .ok u) : ∃ r, compile strictness (a ++ b) = .ok r := by
  cases hr : compile strictness (a ++ b) with
  | error e => cases hb.symm.trans ((compile_append_error_iff ha).mp hr)
  | ok r => exact ⟨r, rfl⟩

theorem exists_compile_of_append (ha : compile strictness a = .ok t)
    (hr : compile strictness (a ++ b) = .ok r) : ∃ u, compile strictness b = .ok u := by
  cases hb : compile strictness b with
  | error e => cases hr.symm.trans ((compile_append_error_iff ha).mpr hb)
  | ok u => exact ⟨u, rfl⟩

theorem holds_append (ha : compile strictness a = .ok t) (hb : compile strictness b = .ok u)
    (hr : compile strictness (a ++ b) = .ok r) :
    r.holds m = true ↔ t.holds m = true ∧ u.holds m = true := by
  obtain ⟨criteria, hcriteria, ht⟩ := compile_holds ha
  obtain ⟨criteria', hcriteria', hu⟩ := compile_holds hb
  rw [(hcriteria.append hcriteria').holds_iff hr, ht, hu, List.forall_mem_append]

theorem SameCriteria.exists_compile (h : SameCriteria criteria criteria')
    (hreads : ReadsAs tokens criteria) (hreads' : ReadsAs tokens' criteria')
    (ht : compile strictness tokens = .ok t) :
    ∃ u, compile strictness tokens' = .ok u :=
  hreads'.compile_ok_iff.mpr (h.forall_mem ⟨.all, rfl⟩ (hreads.compile_ok_iff.mp ⟨t, ht⟩))

theorem SameCriteria.holds_iff (h : SameCriteria criteria criteria')
    (hreads : ReadsAs tokens criteria) (hreads' : ReadsAs tokens' criteria')
    (ht : compile strictness tokens = .ok t) (hu : compile strictness tokens' = .ok u) :
    u.holds m = true ↔ t.holds m = true := by
  rw [hreads'.holds_iff hu, hreads.holds_iff ht]
  exact ⟨h.symm.forall_mem trivial, h.forall_mem trivial⟩

/-- Tokens that compile go together with any others, and then find what both find, in any order and
repetition. -/
theorem criteria_combine (ha : compile strictness a = .ok t) :
    (∀ b u, compile strictness b = .ok u → ∃ r, compile strictness (a ++ b) = .ok r ∧
      ∀ messages order, order.Perm (List.range messages.length) →
        (r.searchIn messages order).positions =
          (t.search messages).positions ∩ (u.search messages).positions ∧
        (r.searchIn messages order).positions.Pairwise (· < ·)) ∧
    (∀ b e, compile strictness b = .error e → compile strictness (a ++ b) = .error e) ∧
    (∃ criteria, ReadsAs a criteria ∧ ∀ criteria', SameCriteria criteria criteria' →
      (∃ b, ReadsAs b criteria') ∧ ∀ b, ReadsAs b criteria' →
        ∃ u, compile strictness b = .ok u ∧
          ∀ messages order, order.Perm (List.range messages.length) →
            (u.searchIn messages order).positions = (t.search messages).positions) ∧
    ∀ b r, compile strictness (a ++ b) = .ok r → ∀ messages order,
      order.Perm (List.range messages.length) →
      (r.searchIn messages order).positions.Sublist (t.search messages).positions := by
  refine ⟨?_, fun b e => (compile_append_error_iff ha).mpr, ?_, ?_⟩
  · intro b u hb
    obtain ⟨r, hr⟩ := exists_compile_append ha hb
    refine ⟨r, hr, fun messages order ho => ⟨?_, r.searchIn_ascending ho⟩⟩
    exact Term.positions_inter ho fun m => holds_append ha hb hr
  · obtain ⟨criteria, hreads, -⟩ := compile_holds ha
    refine ⟨criteria, hreads, fun criteria' h => ⟨h.exists_readsAs hreads, fun b hreads' => ?_⟩⟩
    obtain ⟨u, hu⟩ := h.exists_compile hreads hreads' ha
    exact ⟨u, hu, fun messages order ho =>
      Term.positions_congr ho fun m => h.holds_iff hreads hreads' ha hu⟩
  · intro b r hr messages order ho
    obtain ⟨u, hu⟩ := exists_compile_of_append ha hr
    rw [Term.positions_inter ho fun m => holds_append ha hu hr]
    exact List.filter_sublist

end

/-- Two criteria the other way round, one of them twice and `ALL` between them. -/
theorem criteria_combine_reversed :
    ∃ t u, compile ⟨false, false⟩ ["UNSEEN", "KEYWORD", "NEW"] = .ok t ∧
      compile ⟨false, false⟩ ["keyword", "NEW", "all", "Unseen", "keyword", "NEW"] = .ok u ∧
      (∀ messages, (u.search messages).positions = (t.search messages).positions) ∧
      compile ⟨false, false⟩ (["UNSEEN", "KEYWORD", "NEW"] ++ ["UID", "0"]) =
        .error (.invalidUidRange "0") := by
  have hcompiles : (compile ⟨false, false⟩ ["UNSEEN", "KEYWORD", "NEW"]).isOk = true := by
    decide +kernel
  cases ht : compile ⟨false, false⟩ ["UNSEEN", "KEYWORD", "NEW"] with
  | error e => rw [ht] at hcompiles; cases hcompiles
  | ok t =>
    obtain ⟨-, herror, ⟨criteria, hcriteria, hsame⟩, -⟩ := criteria_combine ht
    have hreads : ReadsAs ["UNSEEN", "KEYWORD", "NEW"] [(.unseen, []), (.keyword, ["NEW"])] :=
      @ReadsAs.cons _ _ [] _ _ (by decide) rfl
        (@ReadsAs.cons _ _ ["NEW"] [] _ (by decide) rfl .nil)
    have hreads' : ReadsAs ["keyword", "NEW", "all", "Unseen", "keyword", "NEW"]
        [(.keyword, ["NEW"]), (.all, []), (.unseen, []), (.keyword, ["NEW"])] :=
      @ReadsAs.cons _ _ ["NEW"] _ _ (by decide) rfl <| @ReadsAs.cons _ _ [] _ _ (by decide) rfl <|
        @ReadsAs.cons _ _ [] _ _ (by decide) rfl <|
          @ReadsAs.cons _ _ ["NEW"] [] _ (by decide) rfl .nil
    obtain rfl := hcriteria.unique hreads
    obtain ⟨u, hu, hhits⟩ := (hsame _ fun c hne => by simp [hne]; tauto).2 _ hreads'
    have hname : lowerAscii SearchKey.uid.name = lowerAscii "UID" := by decide
    have hzero : compile ⟨false, false⟩ ["UID", "0"] = .error (.invalidUidRange "0") :=
      (compile_criterion hname rfl).trans rfl
    exact ⟨t, u, rfl, hu, fun messages => hhits messages _ (List.Perm.refl _), herror _ _ hzero⟩

end MailSearch
