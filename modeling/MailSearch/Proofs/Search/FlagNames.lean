import MailSearch.Proofs.Search.Outcome
import MailSearch.Proofs.Text.Trimming

/-! # Flags and their names

A name that spells a system flag, with its backslash or without, stands for that flag, and every
other name that says something stands for a keyword. The text of a flag is one of its names, so that
no two flags have a text in common.
-/

namespace MailSearch

variable {s t : String} {cs : List Char} {c : Char} {flag other : Flag} {f : SystemFlag}

/-- The name of the flag in any letters, with or without a backslash before it. -/
def SystemFlag.Named (f : SystemFlag) (text : String) : Prop :=
  lowerAscii text = lowerAscii f.name ∨ lowerAscii text = '\\' :: lowerAscii f.name

theorem SystemFlag.mem_all (f : SystemFlag) : f ∈ all := by cases f <;> decide

theorem SystemFlag.eq_of_sameName (f g : SystemFlag) (h : lowerAscii f.name = lowerAscii g.name) :
    f = g := by
  revert h
  cases f <;> cases g <;> decide

theorem SystemFlag.ofName?_eq_some_iff :
    ofName? s = some f ↔ lowerAscii f.name = lowerAscii s :=
  find?_sameIgnoringCase mem_all eq_of_sameName

theorem toLower_eq_backslash_iff : c.toLower = '\\' ↔ c = '\\' := by
  by_cases hupper : c.val ≥ 'A'.val ∧ c.val ≤ 'Z'.val
  · have hlower : c.toLower = _ := dif_pos hupper
    have hlow : 65 ≤ c.val.toNat := UInt32.le_iff_toNat_le.mp hupper.1
    have hhigh : c.val.toNat ≤ 90 := UInt32.le_iff_toNat_le.mp hupper.2
    refine iff_of_false (fun h => ?_) (fun h => ?_)
    · have hcode : (c.val + 32).toNat = 92 := congrArg Char.toNat (hlower.symm.trans h)
      have hsum : (c.val.toNat + 32) % 2 ^ 32 = 92 := (UInt32.toNat_add c.val 32).symm.trans hcode
      omega
    · rw [h] at hhigh
      exact absurd hhigh (by decide)
  · have hsame : c.toLower = c := dif_neg hupper
    rw [hsame]

theorem SystemFlag.name_ne_backslash (f : SystemFlag) (cs : List Char) :
    lowerAscii f.name ≠ '\\' :: cs := by
  cases f <;> simp [lowerAscii, name]

theorem SystemFlag.name_ne_nil (f : SystemFlag) : lowerAscii f.name ≠ [] := by
  cases f <;> simp [lowerAscii, name]

theorem SystemFlag.ofName?_bareName_iff :
    ofName? (String.ofList (Flag.bareName cs)) = some f ↔ f.Named (String.ofList cs) := by
  rw [ofName?_eq_some_iff, Named]
  fun_cases Flag.bareName cs with
  | case1 rest =>
    have hlower : lowerAscii (String.ofList ('\\' :: rest)) =
        '\\' :: lowerAscii (String.ofList rest) := by
      simp [lowerAscii]
    rw [hlower, List.cons_inj_right, or_iff_right (f.name_ne_backslash _).symm, eq_comm]
  | case2 =>
    rename_i hne
    rw [or_iff_left, eq_comm]
    intro h
    cases cs with
    | nil => simp [lowerAscii] at h
    | cons c cs =>
      simp only [lowerAscii, String.toList_ofList, List.map_cons, List.cons.injEq,
        toLower_eq_backslash_iff] at h
      exact hne cs (by rw [h.1])

namespace Flag

def IsEmptyName (text : String) : Prop := text = "" ∨ text = "\\"

theorem bareName_eq_empty_iff :
    String.ofList (bareName cs) = "" ↔ IsEmptyName (String.ofList cs) := by
  have hlist : ∀ cs' : List Char, (String.ofList cs = String.ofList cs') ↔ cs = cs' := fun _ =>
    String.ofList_inj
  change String.ofList (bareName cs) = String.ofList [] ↔
    String.ofList cs = String.ofList [] ∨ String.ofList cs = String.ofList ['\\']
  rw [String.ofList_inj, hlist, hlist]
  fun_cases bareName cs with
  | case1 rest => simp
  | case2 =>
    rename_i hne
    rw [or_iff_left (hne [])]

theorem ofName?_of_empty (h : IsEmptyName (trim s)) : ofName? s = none := by
  rw [ofName?, if_pos (bareName_eq_empty_iff.mpr h)]

theorem ofName?_of_named (h : f.Named (trim s)) : ofName? s = some (.system f) := by
  have hf := SystemFlag.ofName?_bareName_iff.mpr h
  have hne : String.ofList (bareName (trimChars s.toList)) ≠ "" := by
    intro he
    rw [SystemFlag.ofName?_eq_some_iff, he] at hf
    exact f.name_ne_nil hf
  simp only [ofName?, if_neg hne, hf]

theorem ofName?_of_unnamed (hne : ¬ IsEmptyName (trim s))
    (h : ∀ f : SystemFlag, ¬ f.Named (trim s)) : ofName? s = some (.keyword (trim s)) := by
  have hnone : SystemFlag.ofName? (String.ofList (bareName (trimChars s.toList))) = none :=
    Option.eq_none_iff_forall_ne_some.mpr fun f hf => h f (SystemFlag.ofName?_bareName_iff.mp hf)
  simp only [ofName?, if_neg (mt bareName_eq_empty_iff.mp hne), hnone]
  rfl

theorem ofName?_cases (s : String) :
    (IsEmptyName (trim s) ∧ ofName? s = none) ∨
      (∃ f : SystemFlag, f.Named (trim s) ∧ ofName? s = some (.system f)) ∨
      (¬ IsEmptyName (trim s) ∧ (∀ f : SystemFlag, ¬ f.Named (trim s)) ∧
        ofName? s = some (.keyword (trim s))) := by
  by_cases he : IsEmptyName (trim s)
  · exact .inl ⟨he, ofName?_of_empty he⟩
  · by_cases hf : ∃ f : SystemFlag, f.Named (trim s)
    · obtain ⟨f, hf⟩ := hf
      exact .inr (.inl ⟨f, hf, ofName?_of_named hf⟩)
    · have hnone : ∀ f : SystemFlag, ¬ f.Named (trim s) := not_exists.mp hf
      exact .inr (.inr ⟨he, hnone, ofName?_of_unnamed he hnone⟩)

theorem ofName?_eq_none_iff : ofName? s = none ↔ IsEmptyName (trim s) := by
  refine ⟨fun h => ?_, ofName?_of_empty⟩
  obtain ⟨he, -⟩ | ⟨f, -, hs⟩ | ⟨-, -, hs⟩ := ofName?_cases s
  · exact he
  · cases h.symm.trans hs
  · cases h.symm.trans hs

theorem ofName?_eq_system_iff : ofName? s = some (.system f) ↔ f.Named (trim s) := by
  refine ⟨fun h => ?_, ofName?_of_named⟩
  obtain ⟨-, hs⟩ | ⟨g, hg, hs⟩ | ⟨-, -, hs⟩ := ofName?_cases s
  · cases h.symm.trans hs
  · cases h.symm.trans hs
    exact hg
  · cases h.symm.trans hs

theorem ofName?_eq_keyword_iff {k : String} :
    ofName? s = some (.keyword k) ↔
      k = trim s ∧ ¬ IsEmptyName k ∧ ∀ f : SystemFlag, ¬ f.Named k := by
  constructor
  · intro h
    obtain ⟨-, hs⟩ | ⟨g, -, hs⟩ | ⟨hne, hnone, hs⟩ := ofName?_cases s
    · cases h.symm.trans hs
    · cases h.symm.trans hs
    · cases h.symm.trans hs
      exact ⟨rfl, hne, hnone⟩
  · rintro ⟨rfl, hne, hnone⟩
    exact ofName?_of_unnamed hne hnone

theorem ofName?_text (h : ofName? s = some flag) : ofName? flag.text = some flag := by
  cases flag with
  | system f =>
    cases f <;> rfl
  | keyword k =>
    obtain ⟨rfl, hne, hnone⟩ := ofName?_eq_keyword_iff.mp h
    rw [text, ofName?_eq_keyword_iff, trim_trim]
    exact ⟨rfl, hne, hnone⟩

theorem eq_of_text_eq (hs : ofName? s = some flag) (ht : ofName? t = some other)
    (h : flag.text = other.text) : flag = other := by
  have hother := ofName?_text ht
  rw [← h, ofName?_text hs] at hother
  exact Option.some.inj hother

/-- A name stands for one flag at most, and the text of that flag stands for it again. -/
theorem resolution_canonical :
    (∀ s, ofName? s = none ↔ IsEmptyName (trim s)) ∧
    (∀ s present e, Criterion.keywordTest s present = .error e ↔
      IsEmptyName (trim s) ∧ e = .emptyFlagName) ∧
    (∀ s f, ofName? s = some (.system f) ↔ f.Named (trim s)) ∧
    (∀ s k, ofName? s = some (.keyword k) ↔
      k = trim s ∧ ¬ IsEmptyName k ∧ ∀ f : SystemFlag, ¬ f.Named k) ∧
    (∀ s flag, ofName? s = some flag → ofName? flag.text = some flag) ∧
    ∀ s t flag other, ofName? s = some flag → ofName? t = some other → flag.text = other.text →
      flag = other := by
  refine ⟨fun s => ofName?_eq_none_iff, fun s present e => ?_, fun s f => ofName?_eq_system_iff,
    fun s k => ofName?_eq_keyword_iff, fun s flag => ofName?_text,
    fun s t flag other => eq_of_text_eq⟩
  rw [Criterion.keywordTest_error_iff, ofName?_eq_none_iff]

/-- Two names of one system flag, and a keyword that has one backslash more. -/
theorem resolution_canonical_backslashes :
    ∃ flag other k, ofName? "\u00a0\\SEEN\n" = some flag ∧ ofName? "seen" = some other ∧
      flag = other ∧ ofName? " \\\\Seen" = some k ∧ k.text = "\\\\Seen" ∧
      ofName? k.text = some k ∧ k ≠ flag := by
  have hflag : ofName? "\u00a0\\SEEN\n" = some (.system .seen) := by decide +kernel
  have hother : ofName? "seen" = some (.system .seen) := by decide +kernel
  have hk : ofName? " \\\\Seen" = some (.keyword "\\\\Seen") := by decide +kernel
  obtain ⟨-, -, -, -, htext, hsame⟩ := resolution_canonical
  exact ⟨_, _, _, hflag, hother, hsame _ _ _ _ hflag hother rfl, hk, rfl, htext _ _ hk, nofun⟩

end Flag

end MailSearch
