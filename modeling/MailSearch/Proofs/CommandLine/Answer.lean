import MailSearch.Proofs.CommandLine.Stages
import MailSearch.Proofs.Message.Flags
import MailSearch.Proofs.Message.Maildir
import MailSearch.Proofs.Search.Conjunction

/-! # The answer to a search

The messages of a request are counted from one in the order in which they are named. Each is what
its file holds, with its number for a UID and with flags from the arguments and from its own path.
The answer is the numbers of those that meet all criteria, below what has been printed of the log.
-/

namespace MailSearch.CommandLine

/-- What the arguments of a search give to an option. -/
def valuesGiven (option : ValueOption) (args : List Bytes) : List Bytes :=
  match collect .search args.tail with
  | .ok c => c.valuesOf option
  | .error _ => []

/-- The message with a number, as a request wants it from its file. -/
structure Loaded (args : List Bytes) (r : SearchRequest) (number : Nat) (path : Path)
    (raw : Bytes) (m : Message) : Prop where
  fields : m.fields = (Message.parse raw).fields
  addresses : m.addresses = (Message.parse raw).addresses
  uid : m.uid.map Uid.toNat = if r.noUids then none else some number
  flags : ∀ flag, m.hasFlag flag = true ↔
    (∃ given ∈ valuesGiven .flag args, ∃ name, Utf8.decode? given = some name ∧
      Flag.ofName? name = some flag) ∨
      r.maildirFlags = true ∧ Maildir.Gives path flag

section Answered

variable {files : Path → Except FileFault Bytes} {args : List Bytes} {r : SearchRequest}
  {s : Settings} {t : Term} {sink : LogSink} {messages : List Message} {number : Nat} {path : Path}
  {raw : Bytes} {flag : Flag} {criteria : List (SearchKey × List String)}

section Arguments

theorem mem_texts_iff {names : List String} {name : String} (h : texts args = .ok names) :
    name ∈ names ↔ ∃ given ∈ args, Utf8.decode? given = some name := by
  rw [texts] at h
  split at h
  · rename_i hnames
    cases h
    simpa using UidSet.exists_mem_of_mapM (p := (· = name)) hnames
  · cases h

theorem exists_of_bind_eq_ok {α β : Type} {x : Except Halt α} {next : α → Except Halt β} {b : β}
    (h : x >>= next = .ok b) : ∃ a, x = .ok a ∧ next a = .ok b := by
  cases x with
  | error halt => cases h
  | ok a => exact ⟨a, rfl, h⟩

theorem searchRequest_ok (h : searchRequest args = .ok (.search r)) :
    ∃ c names, collect .search args = .ok c ∧ texts (c.valuesOf .flag) = .ok names ∧
      r.flags = names.filterMap Flag.ofName? ∧ r.messages = c.valuesOf .message := by
  obtain ⟨c, hc, h⟩ := exists_of_bind_eq_ok h
  change (if _ then _ else _) = _ at h
  split at h
  · cases h
  · change (if _ then _ else _) = _ at h
    split at h
    · cases h
    · obtain ⟨names, hnames, h⟩ := exists_of_bind_eq_ok h
      obtain ⟨criteria, -, h⟩ := exists_of_bind_eq_ok h
      cases h
      exact ⟨c, names, hc, hnames, rfl, rfl⟩

theorem explainRequest_ne_search : explainRequest args ≠ .ok (.search r) := by
  intro h
  obtain ⟨c, -, h⟩ := exists_of_bind_eq_ok h
  obtain ⟨criteria, -, h⟩ := exists_of_bind_eq_ok h
  cases h

theorem searchRequest_of_parse (h : parse args = .ok (.search r)) :
    searchRequest args.tail = .ok (.search r) := by
  unfold parse at h
  split at h
  · cases h
  · split at h
    · exact h
    · exact absurd h explainRequest_ne_search
    · cases h

theorem messages_of_parse (h : parse args = .ok (.search r)) :
    r.messages = valuesGiven .message args := by
  obtain ⟨c, names, hc, -, -, hmessages⟩ := searchRequest_ok (searchRequest_of_parse h)
  rw [hmessages, valuesGiven, hc]

theorem mem_flags_of_parse (h : parse args = .ok (.search r)) :
    flag ∈ r.flags ↔ ∃ given ∈ valuesGiven .flag args, ∃ name,
      Utf8.decode? given = some name ∧ Flag.ofName? name = some flag := by
  obtain ⟨c, names, hc, hnames, hflags, -⟩ := searchRequest_ok (searchRequest_of_parse h)
  rw [hflags, valuesGiven, hc, List.mem_filterMap]
  simp only [mem_texts_iff hnames]
  constructor
  · rintro ⟨name, ⟨given, hgiven, hname⟩, hflag⟩
    exact ⟨given, hgiven, name, hname, hflag⟩
  · rintro ⟨given, hgiven, name, hname, hflag⟩
    exact ⟨name, ⟨given, hgiven, hname⟩, hflag⟩

end Arguments

theorem loaded_message (h : parse args = .ok (.search r)) (hpos : 0 < number)
    (hlt : number < 4294967296) : Loaded args r number path raw (r.message number path raw) := by
  let bare := (Message.parse raw).setUid (if r.noUids then none else Uid.ofNat? number)
  obtain ⟨set, hset⟩ : ∃ set, r.message number path raw = { bare with flags := set } :=
    Message.foldl_setFlag _ bare
  refine ⟨(congrArg Message.fields hset :), (congrArg Message.addresses hset :), ?_,
    fun flag => ?_⟩
  · rw [hset]
    change Option.map Uid.toNat (if r.noUids then none else Uid.ofNat? number) = _
    split
    · rfl
    · exact Uid.ofNat?_map_toNat hpos hlt
  · have hbare : ¬ bare.hasFlag flag = true :=
      Message.not_hasFlag_of_flags_eq (Message.flags_parse raw)
    rw [SearchRequest.message, Message.hasFlag_foldl_setFlag_iff, or_iff_left hbare,
      List.mem_append, mem_flags_of_parse h]
    cases r.maildirFlags <;> simp [Maildir.mem_flagsOf_iff]

structure AllLoaded (files : Path → Except FileFault Bytes) (args : List Bytes)
    (r : SearchRequest) (messages : List Message) : Prop where
  length_eq : messages.length = r.messages.length
  loaded : ∀ i m, messages[i]? = some m → ∃ path raw, r.messages[i]? = some path ∧
    files path = .ok raw ∧ Loaded args r (i + 1) path raw m

def hitNumbers (t : Term) (messages : List Message) : List Nat :=
  (t.search messages).positions.map (· + 1)

theorem hitNumbers_ascending : (hitNumbers t messages).Pairwise (· < ·) :=
  (t.searchIn_ascending (List.Perm.refl _)).map _ fun _ _ => Nat.succ_lt_succ

theorem mem_hitNumbers_iff : number ∈ hitNumbers t messages ↔
    ∃ i m, number = i + 1 ∧ messages[i]? = some m ∧ t.holds m = true := by
  simp only [hitNumbers, Term.search, List.mem_map, t.mem_searchIn (List.Perm.refl _)]
  constructor
  · rintro ⟨i, ⟨m, hm, hholds⟩, rfl⟩
    exact ⟨i, m, rfl, hm, hholds⟩
  · rintro ⟨i, m, rfl, hm, hholds⟩
    exact ⟨i, ⟨m, hm, hholds⟩, rfl⟩

section Transcript

variable [SettingsFormat] [MatcherLimit] [LogFormat] [WorkerPool]

theorem transcript_of_readable (hargs : parse args = .ok (.search r)) (hsink : SinkAt files r sink)
    (hs : SettingsAt files r.config s) (hc : compile s.strictness r.criteria = .ok t)
    (hfiles : ∀ path ∈ r.messages, ∃ raw, files path = .ok raw)
    (hfew : r.messages.length < 4294967296) :
    ∃ records messages, AllLoaded files args r messages ∧
      (transcript files args).1 = { Outcome.success (.line ("* SEARCH" ++
        String.join ((hitNumbers t messages).map fun number => " " ++ toString number))) records
        with sink } := by
  obtain ⟨records, messages, hrun, -, hlength, hmessages⟩ :=
    searchWith_of_readable hs ([] ++ r.logConfig.toList) hc hfiles
  refine ⟨records, messages, ⟨hlength, fun i m hm => ?_⟩, ?_⟩
  · have hi : i < r.messages.length := hlength ▸ (List.getElem?_eq_some_iff.mp hm).1
    obtain ⟨raw, hraw⟩ := hfiles r.messages[i] (List.getElem_mem hi)
    have hpath : r.messages[i]? = some r.messages[i] := List.getElem?_eq_getElem hi
    obtain rfl := Option.some.inj (hm.symm.trans (hmessages i _ raw hpath hraw))
    refine ⟨_, raw, hpath, hraw, ?_⟩
    rw [Nat.add_comm 1 i]
    exact loaded_message hargs i.succ_pos (by omega)
  · rw [transcript_search hargs, executeSearch_of_sinkAt hsink hrun, t.positions_searchBy,
      hitNumbers, List.map_map]
    rfl

end Transcript

section Uid

variable {token set : String} {us : UidSet} {u : Uid} {m : Message} {parameters : List String}

theorem compile_uid [MatcherLimit] (hk : lowerAscii SearchKey.uid.name = lowerAscii token)
    (hc : compile s.strictness [token, set] = .ok t) :
    ∃ us, UidSet.parse set = .ok us ∧ t = .uidIn us := by
  rw [compile_criterion hk rfl] at hc
  change Criterion.uidTest set = _ at hc
  rw [Criterion.uidTest] at hc
  cases hus : UidSet.parse set with
  | error e => rw [hus] at hc; cases hc
  | ok us => rw [hus] at hc; cases hc; exact ⟨us, rfl, rfl⟩

theorem holds_uidIn_iff :
    (Term.uidIn us).holds m = true ↔ ∃ u, m.uid = some u ∧ us.contains u = true := by
  simp only [Term.holds, Term.eval]
  cases m.uid <;> simp

theorem exists_uid_of_satisfies [MatcherLimit] (h : Satisfies s.strictness m .uid parameters) :
    ∃ u, m.uid = some u := by
  match parameters, h with
  | [set], ⟨u, hu, _⟩ => exact ⟨u, hu⟩

theorem Loaded.uid_eq_some_iff (h : Loaded args r number path raw m) (huids : r.noUids = false) :
    m.uid = some u ↔ u.toNat = number := by
  have huid := h.uid
  rw [huids, if_neg Bool.false_ne_true] at huid
  obtain ⟨v, hv, rfl⟩ := Option.map_eq_some_iff.mp huid
  rw [hv, Option.some_inj]
  exact ⟨fun he => congrArg Uid.toNat he.symm, fun he => (Uid.ext_toNat he).symm⟩

theorem Loaded.uid_eq_none (h : Loaded args r number path raw m) (huids : r.noUids = true) :
    m.uid = none := by
  have huid := h.uid
  rwa [huids, if_pos rfl, Option.map_eq_none_iff] at huid

theorem AllLoaded.mem_hitNumbers_uidIn (h : AllLoaded files args r messages)
    (huids : r.noUids = false) : number ∈ hitNumbers (.uidIn us) messages ↔
      number ≤ r.messages.length ∧ ∃ u, us.contains u = true ∧ u.toNat = number := by
  simp only [mem_hitNumbers_iff, holds_uidIn_iff]
  constructor
  · rintro ⟨i, m, rfl, hm, u, hu, hcontains⟩
    obtain ⟨path, raw, hpath, -, hloaded⟩ := h.loaded i m hm
    exact ⟨(List.getElem?_eq_some_iff.mp hpath).1, u, hcontains,
      (hloaded.uid_eq_some_iff huids).mp hu⟩
  · rintro ⟨hle, u, hcontains, rfl⟩
    have hpos := u.toNat_pos
    have hi : u.toNat - 1 < messages.length := by rw [h.length_eq]; omega
    have hm := List.getElem?_eq_getElem hi
    obtain ⟨path, raw, -, -, hloaded⟩ := h.loaded _ _ hm
    exact ⟨_, _, (Nat.sub_add_cancel hpos).symm, hm, u,
      (hloaded.uid_eq_some_iff huids).mpr (Nat.sub_add_cancel hpos).symm, hcontains⟩

theorem AllLoaded.not_satisfies_uid [MatcherLimit] (h : AllLoaded files args r messages)
    (huids : r.noUids = true) {i : Nat} (hm : messages[i]? = some m) :
    ¬ Satisfies s.strictness m .uid parameters := by
  intro hsatisfies
  obtain ⟨u, hu⟩ := exists_uid_of_satisfies hsatisfies
  obtain ⟨path, raw, -, -, hloaded⟩ := h.loaded i m hm
  cases hu.symm.trans (hloaded.uid_eq_none huids)

end Uid

variable [SettingsFormat] [MatcherLimit] [LogFormat] [WorkerPool]

/-- A search that nothing keeps from it answers with one line, below what its log has printed: the
numbers of the messages that meet all criteria, ascending. -/
theorem search_answers (hargs : parse args = .ok (.search r)) (hsink : SinkAt files r sink)
    (hs : SettingsAt files r.config s) (hc : compile s.strictness r.criteria = .ok t)
    (hfiles : ∀ path ∈ r.messages, ∃ raw, files path = .ok raw)
    (hfew : r.messages.length < 4294967296) :
    r.messages = valuesGiven .message args ∧
    ∃ outcome line messages numbers criteria, AllLoaded files args r messages ∧
      (transcript files args).1 = outcome ∧ outcome.status.code = 0 ∧
      line = "* SEARCH" ++ String.join (numbers.map fun number => " " ++ toString number) ++ "\n" ∧
      outcome.output = sink.printed outcome.records ++ line ∧
      (r.logConfig = none → outcome.output = line) ∧
      numbers.Pairwise (· < ·) ∧
      ReadsAs r.criteria criteria ∧
      (∀ number, number ∈ numbers ↔ ∃ i m, number = i + 1 ∧ messages[i]? = some m ∧
        ∀ c ∈ criteria, Satisfies s.strictness m c.1 c.2) ∧
      (∀ order, order.Perm (List.range messages.length) →
        (t.searchIn messages order).positions.map (· + 1) = numbers) ∧
      (∀ token set, r.criteria = [token, set] →
        lowerAscii SearchKey.uid.name = lowerAscii token → r.noUids = false →
        ∃ us, UidSet.parse set = .ok us ∧ ∀ number, number ∈ numbers ↔
          number ≤ r.messages.length ∧ ∃ u, us.contains u = true ∧ u.toNat = number) ∧
      (r.noUids = true → (∃ c ∈ criteria, c.1 = .uid) → numbers = []) := by
  obtain ⟨records, messages, hloaded, hanswer⟩ :=
    transcript_of_readable hargs hsink hs hc hfiles hfew
  obtain ⟨criteria, hreads, hmeans⟩ := compile_holds hc
  have hmem : ∀ number, number ∈ hitNumbers t messages ↔ ∃ i m, number = i + 1 ∧
      messages[i]? = some m ∧ ∀ c ∈ criteria, Satisfies s.strictness m c.1 c.2 := by
    intro number
    simp only [mem_hitNumbers_iff, hmeans]
  refine ⟨messages_of_parse hargs, _, _, messages, hitNumbers t messages, criteria, hloaded,
    hanswer, rfl, rfl, rfl, fun hnone => ?_, hitNumbers_ascending, hreads, hmem, ?_, ?_, ?_⟩
  · obtain rfl := hsink.unique (.standard hnone)
    exact String.empty_append
  · intro order horder
    rw [t.searchIn_eq_search horder, hitNumbers]
  · intro token set hcriteria hk huids
    rw [hcriteria] at hc
    obtain ⟨us, hus, rfl⟩ := compile_uid hk hc
    exact ⟨us, hus, fun number => hloaded.mem_hitNumbers_uidIn huids⟩
  · rintro huids ⟨⟨_, parameters⟩, hcmem, rfl⟩
    refine List.eq_nil_iff_forall_not_mem.mpr fun number hnumber => ?_
    obtain ⟨i, m, -, hm, hall⟩ := (hmem number).mp hnumber
    exact hloaded.not_satisfies_uid huids hm (hall _ hcmem)

end Answered

/-- Both messages lie with the new ones, but the second has been seen. -/
theorem search_answers_new :
    ∃ files, (transcript files (["search", "-m", "new/a:2,S:2,F", "-mnew/b:2,RS",
      "--maildir-flags", "NEW"].map Utf8.encode)).1.output = "* SEARCH 1\n" := by
  let files : Path → Except FileFault Bytes := fun _ => .ok []
  let r : SearchRequest := ⟨none, none, false, true, [], false,
    ["new/a:2,S:2,F", "new/b:2,RS"].map Utf8.encode, ["NEW"]⟩
  have hargs : parse (["search", "-m", "new/a:2,S:2,F", "-mnew/b:2,RS", "--maildir-flags",
      "NEW"].map Utf8.encode) = .ok (.search r) := by
    decide +kernel
  have hname : lowerAscii SearchKey.new.name = lowerAscii "NEW" := by decide
  obtain ⟨-, outcome, line, messages, numbers, criteria, hloaded, rfl, -, rfl, -, houtput,
      hascending, hreads, hmem, -⟩ :=
    search_answers hargs (.standard rfl) .usual (compile_criterion hname rfl)
      (fun path _ => (⟨[], rfl⟩ : ∃ raw, files path = .ok raw)) (by decide)
  obtain rfl := hreads.unique (@ReadsAs.cons _ _ [] [] _ hname rfl .nil)
  have hflags : ∀ (i : Nat) (m : Message), messages[i]? = some m →
      ∃ path, r.messages[i]? = some path ∧ ∀ flag,
        m.hasFlag flag = true ↔ flag ∈ Maildir.flagsOf path := by
    intro i m hm
    obtain ⟨path, raw, hpath, -, hfile⟩ := hloaded.loaded i m hm
    refine ⟨path, hpath, fun flag => ?_⟩
    rw [hfile.flags, ← mem_flags_of_parse hargs, Maildir.mem_flagsOf_iff]
    simp [r]
  have hone : numbers = [1] := by
    refine hascending.eq_of_mem_iff (List.pairwise_singleton ..) fun number => ?_
    rw [hmem, List.mem_singleton]
    constructor
    · rintro ⟨i, m, rfl, hm, hall⟩
      obtain ⟨path, hpath, hflag⟩ := hflags i m hm
      have hseen : m.hasFlag (.system .seen) = false := (hall _ (List.mem_singleton_self _)).2
      match i with
      | 0 => rfl
      | 1 =>
        obtain rfl := Option.some.inj hpath
        cases hseen.symm.trans ((hflag (.system .seen)).mpr (by decide +kernel))
      | i + 2 => cases hpath
    · rintro rfl
      have hpos : 0 < messages.length := by rw [hloaded.length_eq]; decide
      have hm := List.getElem?_eq_getElem hpos
      obtain ⟨path, hpath, hflag⟩ := hflags 0 _ hm
      obtain rfl := Option.some.inj hpath
      refine ⟨0, _, rfl, hm, List.forall_mem_singleton.mpr ⟨?_, ?_⟩⟩
      · exact (hflag _).mpr (by decide +kernel)
      · rw [Bool.eq_false_iff, Ne, hflag]
        decide +kernel
  rw [hone] at houtput
  exact ⟨files, houtput rfl⟩

/-- A record goes before the line, and no letter of a name that is no text counts. -/
theorem answer_below_record :
    (runIn ((["a"], Utf8.encode "Subject: x\n") :: consoleLog "info")
        ["search", "--log-config", "log.toml", "-m", "a", "ALL"]).output =
      "Loaded 1 message(s)\n* SEARCH 1\n" ∧
    (transcript (fun _ => .ok []) (["search", "--maildir-flags", "SEEN", "-m"].map Utf8.encode ++
        [0xff :: Utf8.encode ":2,S"])).1.output = "* SEARCH\n" := by
  decide +kernel

end MailSearch.CommandLine
