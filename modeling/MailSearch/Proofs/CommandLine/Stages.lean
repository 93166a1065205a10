import MailSearch.CommandLine.Run
import MailSearch.Proofs.CommandLine.Reading
import MailSearch.Proofs.Search.Outcome

/-! # Stages of a run

A search goes through its stages in order, and the first that fails ends it: it settles the status,
keeps the files of the later ones from being read, and leaves no answer. Criteria are refused by
`explain` if and only if they are refused by `search`.
-/

namespace MailSearch.CommandLine

/-- How a search ends: in the first stage that fails, or with an answer. -/
inductive Ending
  | logRefused
  | settingsRefused
  | criteriaRefused (e : SearchError)
  | messageUnread (before : List Path) (path : Path) (fault : FileFault)
  | answered

namespace Ending

def code : Ending → Nat
  | logRefused | settingsRefused => 78
  | criteriaRefused _ => 64
  | messageUnread _ _ fault => if fault = .notFound then 66 else 74
  | answered => 0

end Ending

section Staged

variable {files : Path → Except FileFault Bytes} {args : List Bytes} {r : SearchRequest}
  {q : ExplainRequest} {s : Settings} {t : Term} {e : SearchError} {sink : LogSink}
  {before after seen seen' : List Path} {path : Path} {fault : FileFault} {ending : Ending}
  {outcome : Outcome} {log : List LogRecord}

theorem answerSearch_level [WorkerPool] (sequential : Bool) (t : Term) (messages : List Message) :
    ∀ record ∈ (answerSearch sequential t messages).1, record.level ≠ .error := by
  intro record hrecord
  simp only [answerSearch, List.mem_append, List.mem_cons, List.mem_map, List.not_mem_nil,
    or_false] at hrecord
  rcases hrecord with (rfl | ⟨w, -, rfl⟩) | rfl <;> nofun

variable [MatcherLimit]

variable [SettingsFormat]

theorem executeExplain_of_accepted (hs : SettingsAt files q.config s)
    (hc : compile s.strictness q.criteria = .ok t) :
    (executeExplain (tracing files) q).run seen =
      (.success (.line t.text) [], seen ++ q.config.toList) := by
  rw [executeExplain, run_bind (loadSettings_of_settingsAt _ hs)]
  dsimp only
  rw [hc]
  rfl

section Search

variable [WorkerPool]

variable (hs : SettingsAt files r.config s)

include hs

theorem searchWith_of_loaded {loaded : Except FileFault (List Message)}
    (hc : compile s.strictness r.criteria = .ok t)
    (hrun : (loadMessages (tracing files) r 1 r.messages).run (seen ++ r.config.toList) =
      ((log, loaded), seen')) :
    (searchWith (tracing files) r).run seen =
      (match loaded with
        | .error fault => .refusal (.unreadable fault) (compiledRecord t :: log)
        | .ok messages =>
          .success (answerSearch s.sequential t messages).2
            (compiledRecord t :: log ++ (answerSearch s.sequential t messages).1), seen') := by
  rw [searchWith, run_bind (loadSettings_of_settingsAt _ hs)]
  dsimp only
  rw [hc]
  dsimp only
  rw [run_bind hrun]
  cases loaded <;> rfl

theorem searchWith_of_readable (seen : List Path)
    (hc : compile s.strictness r.criteria = .ok t)
    (h : ∀ p ∈ r.messages, ∃ raw, files p = .ok raw) :
    ∃ log messages, (searchWith (tracing files) r).run seen =
        (.success (.line (responseLine (t.searchBy s.sequential messages).positions)) log,
          seen ++ r.config.toList ++ r.messages) ∧
      (∀ record ∈ log, record.level ≠ .error) ∧ messages.length = r.messages.length ∧
      ∀ i path raw, r.messages[i]? = some path → files path = .ok raw →
        messages[i]? = some (r.message (1 + i) path raw) := by
  obtain ⟨log, messages, hrun, hlog, hlength, hmessages⟩ :=
    loadMessages_of_readable r 1 (seen ++ r.config.toList) h
  refine ⟨_, messages, searchWith_of_loaded hs hc hrun, ?_, hlength, hmessages⟩
  refine List.forall_mem_append.mpr ⟨List.forall_mem_cons.mpr ⟨nofun, fun record hrecord => ?_⟩,
    answerSearch_level s.sequential t messages⟩
  rw [hlog record hrecord]
  nofun

end Search

variable [LogFormat]

variable [WorkerPool]

theorem executeSearch_of_sinkAt (h : SinkAt files r sink)
    (hrun : (searchWith (tracing files) r).run (seen ++ r.logConfig.toList) = (outcome, seen')) :
    (executeSearch (tracing files) r).run seen = ({ outcome with sink }, seen') := by
  rw [executeSearch, run_bind (openLog_of_sinkAt _ h)]
  dsimp only
  rw [run_bind hrun]
  rfl

theorem transcript_search (h : parse args = .ok (.search r)) :
    transcript files args = (executeSearch (tracing files) r).run [] := by
  rw [transcript, execute, h]

theorem transcript_explain (h : parse args = .ok (.explain q)) :
    transcript files args = (executeExplain (tracing files) q).run [] := by
  rw [transcript, execute, h]

end Staged

/-- Sends the texts of records to standard output, down to a level. -/
def consoleLog (level : String) : FileTree :=
  [(["log.toml"], Utf8.encode
    ("[appenders.out]\nkind = \"console\"\n\n[appenders.out.encoder]\n" ++
      "pattern = \"\x7bm\x7d\x7bn\x7d\"\n\n" ++
      "[root]\nlevel = \"" ++ level ++ "\"\nappenders = [\"out\"]\n"))]

end MailSearch.CommandLine
