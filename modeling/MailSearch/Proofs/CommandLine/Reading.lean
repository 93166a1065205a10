import MailSearch.CommandLine.Execution

/-! # Files that a run reads

A run over fixed files, with every path written down when it is read. The log configuration comes
first, then the settings, then the messages in order, and a message that cannot be read is the last.
-/

namespace MailSearch.CommandLine

def tracing (files : Path → Except FileFault Bytes) (path : Path) :
    StateM (List Path) (Except FileFault Bytes) := do
  modify (· ++ [path])
  return files path

/-- What a command line does over `files`, and the paths that it reads, in order. -/
def transcript [SettingsFormat] [MatcherLimit] [LogFormat] [WorkerPool]
    (files : Path → Except FileFault Bytes) (args : List Bytes) : Outcome × List Path :=
  (execute (tracing files) args).run []

variable {files : Path → Except FileFault Bytes} {seen : List Path}

theorem run_tracing_bind {α : Type} (path : Path)
    (next : Except FileFault Bytes → StateM (List Path) α) :
    (tracing files path >>= next).run seen = (next (files path)).run (seen ++ [path]) := rfl

theorem run_bind {α β : Type} {step : StateM (List Path) α} {next : α → StateM (List Path) β}
    {seen' : List Path} {a : α} (h : step.run seen = (a, seen')) :
    (step >>= next).run seen = (next a).run seen' := by
  rw [StateT.run_bind, h]
  rfl

section Sinks

variable [LogFormat] {r : SearchRequest} {sink sink' : LogSink}

/-- Where a search has its records go. -/
inductive SinkAt (files : Path → Except FileFault Bytes) (r : SearchRequest) : LogSink → Prop
  | standard : r.logConfig = none →
      SinkAt files r (.standardError (if r.verbose then .debug else .info))
  | file {path : Path} {raw : Bytes} {sink : LogSink} : r.logConfig = some path →
      files path = .ok raw → LogFormat.read? path raw = some sink → SinkAt files r sink

theorem openLog_of_sinkAt (seen : List Path) (h : SinkAt files r sink) :
    (openLog (tracing files) r).run seen = (.ok sink, seen ++ r.logConfig.toList) := by
  cases h with
  | standard hnone =>
    rw [openLog, hnone, Option.toList_none, List.append_nil]
    rfl
  | file hpath hraw hsink =>
    rw [openLog, hpath, run_tracing_bind, hraw, LogSink.load?, hsink]
    rfl

theorem SinkAt.unique (h : SinkAt files r sink) (h' : SinkAt files r sink') : sink = sink' := by
  have hrun := (openLog_of_sinkAt [] h).symm.trans (openLog_of_sinkAt [] h')
  exact Except.ok.inj (Prod.mk.inj hrun).1

end Sinks

section Configured

variable [SettingsFormat] {config : Option Path} {s s' : Settings}

inductive SettingsAt (files : Path → Except FileFault Bytes) : Option Path → Settings → Prop
  | usual : SettingsAt files none {}
  | file {path : Path} {raw : Bytes} {s : Settings} :
      files path = .ok raw → Settings.parse raw = .ok s → SettingsAt files (some path) s

theorem loadSettings_of_settingsAt (seen : List Path) (h : SettingsAt files config s) :
    (loadSettings (tracing files) config).run seen = (.ok s, seen ++ config.toList) := by
  cases h with
  | usual => rw [Option.toList_none, List.append_nil]; rfl
  | file hraw hs =>
    rw [loadSettings, run_tracing_bind, hraw, Settings.load, hs]
    rfl

theorem SettingsAt.unique (h : SettingsAt files config s) (h' : SettingsAt files config s') :
    s = s' := by
  have hrun := (loadSettings_of_settingsAt [] h).symm.trans (loadSettings_of_settingsAt [] h')
  exact Except.ok.inj (Prod.mk.inj hrun).1

end Configured

variable {path : Path} {before paths : List Path} {fault : FileFault}

theorem loadMessages_of_readable (r : SearchRequest) (position : Nat) (seen : List Path)
    (h : ∀ path ∈ paths, ∃ raw, files path = .ok raw) :
    ∃ log messages, (loadMessages (tracing files) r position paths).run seen =
        ((log, .ok messages), seen ++ paths) ∧
      (∀ record ∈ log, record.level = .debug) ∧ messages.length = paths.length ∧
      ∀ i path raw, paths[i]? = some path → files path = .ok raw →
        messages[i]? = some (r.message (position + i) path raw) := by
  induction paths generalizing position seen with
  | nil => exact ⟨[], [], by rw [List.append_nil]; rfl, by simp, rfl, by simp⟩
  | cons path paths ih =>
    obtain ⟨⟨raw, hraw⟩, hrest⟩ := List.forall_mem_cons.mp h
    obtain ⟨log, messages, hrun, hlog, hlength, hmessages⟩ :=
      ih (position + 1) (seen ++ [path]) hrest
    refine ⟨loadedRecord path position :: log, r.message position path raw :: messages,
      ?_, ?_, ?_, ?_⟩
    · rw [loadMessages, run_tracing_bind, hraw, run_bind hrun, List.append_assoc]
      rfl
    · exact List.forall_mem_cons.mpr ⟨rfl, hlog⟩
    · rw [List.length_cons, hlength, List.length_cons]
    · rintro (_ | i) path' raw' hpath hraw'
      · obtain rfl := Option.some.inj hpath
        obtain rfl := Except.ok.inj (hraw.symm.trans hraw')
        rfl
      · rw [List.getElem?_cons_succ] at hpath ⊢
        rw [hmessages i path' raw' hpath hraw', Nat.add_right_comm, Nat.add_assoc]

end MailSearch.CommandLine
