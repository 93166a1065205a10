import MailSearch.Proofs.CommandLine.Stages
import MailSearch.Proofs.Search.Shape

/-! # What an explanation shows

The command that explains criteria prints the term that they compile to. As this term is a
conjunction of the criteria in the order given, each criterion that tests anything is to be found in
what is printed, once and in its place.
-/

namespace MailSearch.CommandLine

open Term

section Explained

variable [SettingsFormat] [MatcherLimit] [LogFormat] [WorkerPool]
variable {strictness : Strictness} {tokens : List String} {t : Term}

/-- A compiled term is the conjunction of its criteria's tests, nested to the left, and an
explanation prints it. -/
theorem compiled_shape (h : compile strictness tokens = .ok t) :
    (∃ criteria groups, ReadsAs tokens criteria ∧ TestedBy strictness criteria groups ∧
      (t = .all ↔ ∀ c ∈ criteria, c.1 = .all) ∧
      (t ≠ .all → .all ∉ t.leaves ∧ t.leaves = groups.flatten) ∧
      t = nest ((groups.filter (!·.isEmpty)).map nest) ∧
      ∀ files args q s, parse args = .ok (.explain q) → SettingsAt files q.config s →
        s.strictness = strictness → q.criteria = tokens →
        (transcript files args).1 = .success (.line (nestedText
          ((groups.filter (!·.isEmpty)).map fun tests => nestedText (tests.map text)))) []) ∧
    ∀ new recent unseen rest, lowerAscii SearchKey.new.name = lowerAscii new →
      lowerAscii SearchKey.recent.name = lowerAscii recent →
      lowerAscii SearchKey.unseen.name = lowerAscii unseen →
      compile strictness (new :: rest) = compile strictness (recent :: unseen :: rest) := by
  refine ⟨?_, fun _ _ _ _ => compile_new_cons⟩
  obtain ⟨criteria, groups, hreads, hgroups, rfl⟩ := compile_shape h
  refine ⟨criteria, groups, hreads, hgroups, hgroups.nest_members_eq_all_iff, fun hne => ?_, rfl,
    ?_⟩
  · rw [hgroups.leaves_nest_members hne]
    exact ⟨hgroups.all_not_mem_flatten, rfl⟩
  · intro files args q s hargs hs hstrict hcriteria
    subst hstrict hcriteria
    rw [transcript_explain hargs, executeExplain_of_accepted hs h, text_nest, text_members]

end Explained

/-- A pair in the middle, and a parameter that looks like a key. -/
theorem compiled_shape_mixed :
    ∃ criteria groups,
      ReadsAs ["ALL", "deleted", "New", "all", "KEYWORD", "NEW"] criteria ∧
      TestedBy {} criteria groups ∧
      nestedText ((groups.filter (!·.isEmpty)).map fun tests => nestedText (tests.map text)) =
        "((FLAG \\Deleted AND (FLAG \\Recent AND NOT FLAG \\Seen)) AND FLAG NEW)" ∧
      ∀ files, (transcript files
        (["explain", "ALL", "deleted", "New", "all", "KEYWORD", "NEW"].map Utf8.encode)).1 =
          .success (.line
            "((FLAG \\Deleted AND (FLAG \\Recent AND NOT FLAG \\Seen)) AND FLAG NEW)") [] := by
  have hcompiles :
      (compile {} ["ALL", "deleted", "New", "all", "KEYWORD", "NEW"]).toOption.map text =
        some "((FLAG \\Deleted AND (FLAG \\Recent AND NOT FLAG \\Seen)) AND FLAG NEW)" := by
    decide +kernel
  have hargs :
      parse (["explain", "ALL", "deleted", "New", "all", "KEYWORD", "NEW"].map Utf8.encode) =
        .ok (.explain ⟨none, ["ALL", "deleted", "New", "all", "KEYWORD", "NEW"]⟩) := by
    decide +kernel
  cases ht : compile {} ["ALL", "deleted", "New", "all", "KEYWORD", "NEW"] with
  | error e =>
    rw [ht] at hcompiles
    cases hcompiles
  | ok t =>
    rw [ht] at hcompiles
    obtain ⟨⟨criteria, groups, hreads, hgroups, -, -, hnest, hexplain⟩, -⟩ := compiled_shape ht
    have htext := Option.some.inj hcompiles
    rw [hnest, text_nest, ← members, text_members] at htext
    refine ⟨criteria, groups, hreads, hgroups, htext, fun files => ?_⟩
    rw [hexplain files _ _ _ hargs .usual rfl rfl, htext]

end MailSearch.CommandLine
