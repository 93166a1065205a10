import MailSearch.Proofs.Needle.Casing
import MailSearch.Proofs.Search.LetterCase
import MailSearch.Proofs.Search.Warnings

/-! # Terms that are the same

Terms are compared test by test: addresses up to letter case, needles by text and pieces. Whether a
needle counts letter case is no part of the comparison, so that terms of searches with different
settings may be the same and tell messages apart. Where that happens is settled by the letters of
the needles.
-/

namespace MailSearch

namespace Term

variable {m : Message} {a b t u x y : Term} {xs ys : List Term} {s s' : Strictness}
variable {field : String} {n : Needle}

/-- The tests that count as the same. -/
inductive SameTest : Term → Term → Prop
  | all : SameTest all all
  | flagIs (flag : Flag) (present : Bool) : SameTest (flagIs flag present) (flagIs flag present)
  | headerContains (field : String) {n n' : Needle} :
      n.sameAs n' = true → SameTest (headerContains field n) (headerContains field n')
  | addressIs (role : Role) {p q : EmailAddress} :
      p.Same q → SameTest (addressIs role p) (addressIs role q)
  | uidIn (set : UidSet) : SameTest (uidIn set) (uidIn set)

theorem SameTest.symm (h : SameTest x y) : SameTest y x := by
  cases h with
  | all => exact .all
  | flagIs flag present => exact .flagIs flag present
  | headerContains field hn =>
    obtain ⟨htext, hpieces⟩ := Needle.sameAs_iff.mp hn
    exact .headerContains field (Needle.sameAs_iff.mpr ⟨htext.symm, hpieces.symm⟩)
  | addressIs role hp =>
    obtain ⟨hlocal, hdomain⟩ := EmailAddress.same_iff.mp hp
    exact .addressIs role (EmailAddress.same_iff.mpr ⟨hlocal.symm, hdomain.symm⟩)
  | uidIn set => exact .uidIn set

theorem sameTests_of_sameAs (h : a.sameAs b = true) : List.Forall₂ SameTest a.leaves b.leaves := by
  induction a generalizing b with
  | and t u iht ihu =>
    cases b with
    | and t' u' =>
      obtain ⟨ht, hu⟩ := Bool.and_eq_true_iff.mp h
      exact List.rel_append (iht ht) (ihu hu)
    | _ => cases h
  | all =>
    cases b with
    | all => exact .cons .all .nil
    | _ => cases h
  | flagIs flag present =>
    cases b with
    | flagIs flag' present' =>
      obtain ⟨hflag, hpresent⟩ := Bool.and_eq_true_iff.mp h
      obtain rfl := beq_iff_eq.mp hflag
      obtain rfl := beq_iff_eq.mp hpresent
      exact .cons (.flagIs flag present) .nil
    | _ => cases h
  | headerContains field n =>
    cases b with
    | headerContains field' n' =>
      obtain ⟨hfield, hn⟩ := Bool.and_eq_true_iff.mp h
      obtain rfl := beq_iff_eq.mp hfield
      exact .cons (.headerContains field hn) .nil
    | _ => cases h
  | addressIs role p =>
    cases b with
    | addressIs role' q =>
      obtain ⟨hrole, hp⟩ := Bool.and_eq_true_iff.mp h
      obtain rfl := beq_iff_eq.mp hrole
      exact .cons (.addressIs role hp) .nil
    | _ => cases h
  | uidIn set =>
    cases b with
    | uidIn set' =>
      obtain rfl := beq_iff_eq.mp h
      exact .cons (.uidIn set) .nil
    | _ => cases h

theorem holds_iff_leaves : t.holds m = true ↔ ∀ leaf ∈ t.leaves, leaf.holds m = true := by
  induction t with
  | and t u iht ihu =>
    rw [holds_and, Bool.and_eq_true, iht, ihu, leaves, List.forall_mem_append]
  | _ => simp [leaves]

theorem leaves_conj_subset : (t.conj u).leaves ⊆ t.leaves ++ u.leaves := by
  unfold conj
  split <;> simp [leaves]

section

variable [MatcherLimit]

def NeedlesFrom (s : Strictness) (xs : List Term) : Prop :=
  ∀ field n, headerContains field n ∈ xs → Needle.ofText n.text s = .ok n

theorem NeedlesFrom.conj (ht : NeedlesFrom s t.leaves) (hu : NeedlesFrom s u.leaves) :
    NeedlesFrom s (t.conj u).leaves := by
  intro field n hn
  rcases List.mem_append.mp (leaves_conj_subset hn) with hn | hn
  · exact ht field n hn
  · exact hu field n hn

theorem needlesFrom_of_free (h : ∀ field n, headerContains field n ∉ xs) : NeedlesFrom s xs :=
  fun field n hn => absurd hn (h field n)

theorem needlesFrom_keywordTest {name : String} {present : Bool}
    (h : Criterion.keywordTest name present = .ok t) : NeedlesFrom s t.leaves := by
  obtain ⟨flag, -, rfl⟩ := Criterion.keywordTest_eq_ok h
  exact needlesFrom_of_free (by simp [leaves])

theorem needlesFrom_of_read {α : Type} {read : Except SearchError α} {leaf : α → Term}
    (h : (do return leaf (← read)) = .ok t)
    (hleaf : ∀ v, read = .ok v → NeedlesFrom s (leaf v).leaves) : NeedlesFrom s t.leaves := by
  obtain ⟨v, hv, rfl⟩ := Criterion.exists_of_read h
  exact hleaf v hv

theorem needlesFrom_headerContains {text : String} (h : Needle.ofText text s = .ok n) :
    NeedlesFrom s (headerContains field n).leaves := by
  intro field' n' hmem
  cases List.mem_singleton.mp hmem
  have htext : n.text = text := congrArg Needle.text (Needle.ofText_eq_ok h)
  rwa [htext]

theorem needlesFrom_build {c : Criterion} (h : c.build = .ok t) :
    NeedlesFrom c.strictness t.leaves := by
  have hp := Criterion.length_of_build h
  obtain ⟨key, parameters, strictness⟩ := c
  have hflag : ∀ flag present, NeedlesFrom strictness (flagIs flag present).leaves :=
    fun flag present => needlesFrom_of_free (by simp [leaves])
  cases key with
  | all =>
    obtain rfl := List.eq_nil_of_length_eq_zero hp
    cases h
    exact needlesFrom_of_free (by simp [leaves])
  | answered | deleted | draft | flagged | old | recent | seen | unanswered | undeleted | undraft
  | unflagged | unseen =>
    obtain rfl := List.eq_nil_of_length_eq_zero hp
    cases h
    exact hflag _ _
  | new =>
    obtain rfl := List.eq_nil_of_length_eq_zero hp
    cases h
    exact (hflag _ _).conj (hflag _ _)
  | keyword | unkeyword =>
    obtain ⟨name, rfl⟩ := List.length_eq_one_iff.mp hp
    exact needlesFrom_keywordTest h
  | sender | recipient | cc | bcc | uid =>
    obtain ⟨text, rfl⟩ := List.length_eq_one_iff.mp hp
    exact needlesFrom_of_read h fun _ _ => needlesFrom_of_free (by simp [leaves])
  | subject =>
    obtain ⟨text, rfl⟩ := List.length_eq_one_iff.mp hp
    exact needlesFrom_of_read h fun _ hn => needlesFrom_headerContains hn
  | header =>
    obtain ⟨field, text, rfl⟩ := List.length_eq_two.mp hp
    exact needlesFrom_of_read h fun _ hn => needlesFrom_headerContains hn

theorem needlesFrom_compileOnto {tokens : List String} (hterm : NeedlesFrom s t.leaves)
    (h : compileOnto s t tokens = .ok u) : NeedlesFrom s u.leaves := by
  obtain ⟨criteria, hreads, -⟩ := compileOnto_holds h
  induction hreads generalizing t with
  | nil =>
    rw [compileOnto] at h
    cases h
    exact hterm
  | cons hk hp _ ih =>
    obtain ⟨v, hb, hrest⟩ := (compileOnto_eq_ok_iff hk hp).mp h
    exact ih (hterm.conj (needlesFrom_build hb)) hrest

/-- All needles of a compiled term have the settings of its search. -/
theorem needlesFrom_compile {tokens : List String} (h : compile s tokens = .ok t) :
    NeedlesFrom s t.leaves :=
  needlesFrom_compileOnto (needlesFrom_of_free (by simp [leaves])) h

/-- Tests that are the same are met alike where letter case does not tell them apart. -/
theorem forall_holds_of_sameTests (hsame : List.Forall₂ SameTest xs ys) (hxs : NeedlesFrom s xs)
    (hys : NeedlesFrom s' ys)
    (hcase : (s'.caseSensitive = true → s.caseSensitive = true) ∨
      ∀ field n, headerContains field n ∈ xs → Uncased n.text.toList)
    (h : ∀ x ∈ xs, x.holds m = true) : ∀ y ∈ ys, y.holds m = true := by
  induction hsame with
  | nil => simp
  | @cons x y xs ys hxy _ ih =>
    obtain ⟨hx, h⟩ := List.forall_mem_cons.mp h
    refine List.forall_mem_cons.mpr ⟨?_, ih ?_ ?_ ?_ h⟩
    · cases hxy with
      | all => rfl
      | flagIs flag present => exact hx
      | headerContains field hn =>
        obtain ⟨value, hvalue, hfound⟩ := List.any_eq_true.mp hx
        have hcase := hcase.imp_right fun hu => hu field _ List.mem_cons_self
        exact List.any_eq_true.mpr ⟨value, hvalue, Needle.isFoundIn_of_sameAs
          (hxs field _ List.mem_cons_self) (hys field _ List.mem_cons_self) hn hcase hfound⟩
      | addressIs role hp =>
        obtain ⟨p, hmem, hp'⟩ := List.any_eq_true.mp hx
        refine List.any_eq_true.mpr ⟨p, hmem, ?_⟩
        rwa [← EmailAddress.sameAs_congr (EmailAddress.same_iff.mpr ⟨rfl, rfl⟩) hp]
      | uidIn set => exact hx
    · exact fun field n hn => hxs field n (List.mem_cons_of_mem _ hn)
    · exact fun field n hn => hys field n (List.mem_cons_of_mem _ hn)
    · exact hcase.imp_right fun hu field n hn => hu field n (List.mem_cons_of_mem _ hn)

end

end Term

/-- The message with other characters in its header values. -/
def Message.respelled (f : Char → Char) (m : Message) : Message :=
  { m with fields := m.fields.map fun h => ⟨h.name, String.ofList (h.value.toList.map f)⟩ }

theorem Message.values_respelled (f : Char → Char) (m : Message) (name : String) :
    (m.respelled f).values name =
      (m.values name).map fun value => String.ofList (value.toList.map f) := by
  simp only [values, respelled, List.filter_map, List.map_map]
  rfl

namespace Term

variable {m : Message} {a b t : Term} {s s' : Strictness} {field : String} {n : Needle}

theorem exists_sameTest {xs ys : List Term} (h : List.Forall₂ SameTest xs ys)
    (hn : headerContains field n ∈ xs) :
    ∃ n', headerContains field n' ∈ ys ∧ n'.text = n.text := by
  induction h with
  | nil => cases hn
  | cons hxy _ ih =>
    rcases List.mem_cons.mp hn with rfl | hn
    · cases hxy with
      | headerContains _ hsame =>
        exact ⟨_, List.mem_cons_self, (Needle.sameAs_iff.mp hsame).1.symm⟩
    · obtain ⟨n', hn', htext⟩ := ih hn
      exact ⟨n', List.mem_cons_of_mem _ hn', htext⟩

section

variable [MatcherLimit]

theorem holds_respelled {f : Char → Char} (hf : ∀ c, foldCase (f c) = foldCase c)
    (hs : s.caseSensitive = false) (ht : NeedlesFrom s t.leaves) :
    t.holds (m.respelled f) = true ↔ t.holds m = true := by
  rw [holds_iff_met, holds_iff_met]
  induction t with
  | headerContains field n =>
    have hn : n.caseSensitive = false := by
      rw [Needle.ofText_eq_ok (ht field n List.mem_cons_self)]
      exact hs
    simp only [Met, Message.values_respelled, List.mem_map, exists_exists_and_eq_and,
      Needle.isFoundIn_respelled hn hf]
  | and t u iht ihu =>
    have hright : NeedlesFrom s u.leaves := fun field n hn =>
      ht field n (List.mem_append_right _ hn)
    exact and_congr (iht fun field n hn => ht field n (List.mem_append_left _ hn)) (ihu hright)
  | _ => exact Iff.rfl

/-- Some spelling lacks a cased letter that `a` asks for, and meets `b`. -/
theorem exists_told_apart (ha : NeedlesFrom s a.leaves) (hs : s.caseSensitive = true)
    (hb : NeedlesFrom s' b.leaves) (hs' : s'.caseSensitive = false)
    (hn : headerContains field n ∈ a.leaves) (hcased : ¬ Uncased n.text.toList)
    (hm : b.holds m = true) : ∃ m', b.holds m' = true ∧ a.holds m' = false := by
  obtain ⟨c, hc, d, hfold, hne⟩ :
      ∃ c ∈ n.text.toList, ∃ d, foldCase d = foldCase c ∧ d ≠ c := by
    simpa [Uncased] using hcased
  have hblank : isBlank c = false := by
    rw [Bool.eq_false_iff]
    exact fun hblank => hne (eq_of_foldCase_of_isBlank hblank hfold)
  have hspelled : ∀ x, foldCase (if x = c then d else x) = foldCase x := by
    intro x
    split
    · rename_i hx
      rw [hx, hfold]
    · rfl
  refine ⟨m.respelled fun x => if x = c then d else x, (holds_respelled hspelled hs' hb).mpr hm, ?_⟩
  rw [Bool.eq_false_iff]
  intro hmet
  obtain ⟨value, hvalue, hfound⟩ := List.any_eq_true.mp (holds_iff_leaves.mp hmet _ hn)
  rw [Message.values_respelled, List.mem_map] at hvalue
  obtain ⟨original, -, rfl⟩ := hvalue
  have hletter := Needle.mem_of_isFoundIn (ha field n hn) hs hblank hc hfound
  rw [String.toList_ofList, List.mem_map] at hletter
  obtain ⟨x, -, hx⟩ := hletter
  split at hx
  · exact hne hx
  · contradiction

variable {ta tb : List String} {sa sb : Strictness}

theorem holds_of_sameTests (ha : compile sa ta = .ok a) (hb : compile sb tb = .ok b)
    (hsame : List.Forall₂ SameTest a.leaves b.leaves)
    (hcase : (sb.caseSensitive = true → sa.caseSensitive = true) ∨
      ∀ field n, headerContains field n ∈ a.leaves → Uncased n.text.toList)
    (hm : a.holds m = true) : b.holds m = true :=
  holds_iff_leaves.mpr (forall_holds_of_sameTests hsame (needlesFrom_compile ha)
    (needlesFrom_compile hb) hcase (holds_iff_leaves.mp hm))

theorem compile_subject {text : String} (h : Needle.ofText text s = .ok n) :
    compile s ["SUBJECT", text] = .ok (headerContains "Subject" n) := by
  have hkey : lowerAscii SearchKey.subject.name = lowerAscii "SUBJECT" := rfl
  rw [compile_criterion hkey rfl]
  change Criterion.headerTest "Subject" text s = _
  rw [Criterion.headerTest, h]
  rfl

/-- Terms that are the same are met alike exactly if letter case cannot tell them apart. -/
theorem sameAs_congr_iff (ha : compile sa ta = .ok a) (hb : compile sb tb = .ok b)
    (h : a.sameAs b = true) :
    ((∀ m, a.holds m = b.holds m) ↔
      sa.caseSensitive = sb.caseSensitive ∨
      (∀ field n, headerContains field n ∈ a.leaves → Uncased n.text.toList) ∨
      ∀ m, a.holds m = false ∧ b.holds m = false) ∧
    ((sb.caseSensitive = true → sa.caseSensitive = true) →
      ∀ m, a.holds m = true → b.holds m = true) := by
  have hsame := sameTests_of_sameAs h
  have hflipped : List.Forall₂ SameTest b.leaves a.leaves :=
    List.Forall₂.flip (hsame.imp fun _ _ h => h.symm)
  refine ⟨⟨?_, ?_⟩, fun hcase m => holds_of_sameTests ha hb hsame (.inl hcase)⟩
  · intro hall
    by_contra hnot
    simp only [not_or, not_forall] at hnot
    obtain ⟨hne, ⟨field, n, hn, hcased⟩, m, hm⟩ := hnot
    have hna := needlesFrom_compile ha
    have hnb := needlesFrom_compile hb
    have hbm : b.holds m = true := by
      by_contra hbm
      have hbm := Bool.eq_false_iff.mpr hbm
      exact hm ⟨(hall m).trans hbm, hbm⟩
    cases hsa : sa.caseSensitive with
    | true =>
      have hsb : sb.caseSensitive = false := by
        rw [Bool.eq_false_iff]
        exact fun hsb => hne (hsa.trans hsb.symm)
      obtain ⟨m', hb', ha'⟩ := exists_told_apart hna hsa hnb hsb hn hcased hbm
      rw [hall m', hb'] at ha'
      cases ha'
    | false =>
      have hsb : sb.caseSensitive = true := by
        by_contra hsb
        exact hne (hsa.trans (Bool.eq_false_iff.mpr hsb).symm)
      obtain ⟨n', hn', htext⟩ := exists_sameTest hsame hn
      obtain ⟨m', ha', hb'⟩ :=
        exists_told_apart hnb hsb hna hsa hn' (htext ▸ hcased) ((hall m).trans hbm)
      rw [hall m', hb'] at ha'
      cases ha'
  · rintro (hcase | hu | hnone) m
    · rw [Bool.eq_iff_iff]
      exact ⟨holds_of_sameTests ha hb hsame (.inl hcase.trans),
        holds_of_sameTests hb ha hflipped (.inl hcase.symm.trans)⟩
    · have hu' : ∀ field n, headerContains field n ∈ b.leaves → Uncased n.text.toList := by
        intro field n hn
        obtain ⟨n', hn', htext⟩ := exists_sameTest hflipped hn
        exact htext ▸ hu field n' hn'
      rw [Bool.eq_iff_iff]
      exact ⟨holds_of_sameTests ha hb hsame (.inr hu), holds_of_sameTests hb ha hflipped (.inr hu')⟩
    · rw [(hnone m).1, (hnone m).2]

end

/-- White space counts in one of two searches for a text that has none. -/
theorem sameAs_congr_exact :
    ∃ a b, compile ⟨true, true⟩ ["SUBJECT", "Lunch"] = .ok a ∧
      compile ⟨true, false⟩ ["SUBJECT", "Lunch"] = .ok b ∧
      a.sameAs b = true ∧ ∀ m, a.holds m = b.holds m := by
  have hok : (Needle.ofText "Lunch" ⟨true, true⟩).isOk = true := by decide +kernel
  have hok' : (Needle.ofText "Lunch" ⟨true, false⟩).isOk = true := by decide +kernel
  have ha := compile_subject (Needle.ofText_of_isOk hok)
  have hb := compile_subject (Needle.ofText_of_isOk hok')
  refine ⟨_, _, ha, hb, ?_, (sameAs_congr_iff ha hb ?_).1.mpr (.inl rfl)⟩
  · decide +kernel
  · decide +kernel

/-- Of two terms that are the same only one finds the subject. -/
theorem sameAs_not_congr :
    ∃ a b, compile ⟨true, false⟩ ["SUBJECT", "lunch"] = .ok a ∧
      compile ⟨false, false⟩ ["SUBJECT", "lunch"] = .ok b ∧ a.sameAs b = true ∧
      a.holds (Message.empty.addField ⟨"Subject", "Lunch"⟩) = false ∧
      b.holds (Message.empty.addField ⟨"Subject", "Lunch"⟩) = true := by
  have hok : (Needle.ofText "lunch" ⟨true, false⟩).isOk = true := by decide +kernel
  have hok' : (Needle.ofText "lunch" ⟨false, false⟩).isOk = true := by decide +kernel
  refine ⟨_, _, compile_subject (Needle.ofText_of_isOk hok),
    compile_subject (Needle.ofText_of_isOk hok'), ?_, ?_, ?_⟩
  · decide +kernel
  · decide +kernel
  · decide +kernel

end Term

end MailSearch
