import ChangeReport.Proofs.Conversation.Resilience
import ChangeReport.Proofs.Program.Applications
import ChangeReport.Proofs.Run.Completion

/-! From the applications of a check to its output. The names and the source that a check is given
are those that its run begins with and reads from, and the outcomes of this run are the ones that the
check tells. -/
namespace ChangeReport.Program
open CommandLine Run

variable {τ σ : Type}

/-- The workers of a check on a source. -/
def crewOf (source : ManifestSource) : Crew := .ofWorker ⟨source, overlayDiffer, none⟩

/-- A run of a check on a host. It begins with the names on a report that is just posted, goes by
some order of events over the source, and has come to its end. -/
inductive Ran (host : Host σ) (source : ManifestSource) (c : Config) (request : ChangeRequest)
    (names : List String) (s : σ) (run : State σ) : Prop
  | intro {message d slept t events}
      (posted : (Conversation.start request c.layout c.run.retry).post host c.comments.tidyMode s =
        (⟨.ok message, d, slept⟩, t))
      (path : follow (crewOf source) c.run.maxConcurrent host events
        (.start message t false names) = some run)
      (ended : run.Ended)

/-- How a report comes about on a host: its comment cannot be posted, or there is a run, and its
outcomes are told if the last body can be published. -/
inductive Reports (host : Host σ) (source : ManifestSource) (c : Config) (request : ChangeRequest)
    (names : List String) (s : σ) : Except Failure (List AppOutcome × String) → Prop
  | unposted {e d slept t}
      (posted : (Conversation.start request c.layout c.run.retry).post host c.comments.tidyMode s =
        (⟨.error e, d, slept⟩, t)) :
      Reports host source c request names s
        (.error (conversationFailure "failed to post report comment" e))
  | unpublished {run e} (ran : Ran host source c request names s run) :
      Reports host source c request names s
        (.error (conversationFailure "failed to publish final report" e))
  | published {run body} (ran : Ran host source c request names s run) :
      Reports host source c request names s (.ok (run.outcomes, body))

theorem reports_report (host : Host σ) (source : ManifestSource) (c : Config)
    (request : ChangeRequest) (names : List String) (s : σ) :
    Reports host source c request names s (report host source c request names s).1 := by
  rcases posted : (Conversation.start request c.layout c.run.retry).post host c.comments.tidyMode s
    with ⟨⟨answer, d, slept⟩, t⟩
  cases answer with
  | error e =>
      simp only [report, posted]
      exact .unposted posted
  | ok message =>
      obtain ⟨events, path, ended⟩ := @finish_follow σ (crewOf source) c.run.maxConcurrent host
        (fun _ => false) (.start message t false names)
      simp only [report, posted]
      split
      · exact .unpublished ⟨posted, path, ended⟩
      · exact .published ⟨posted, path, ended⟩

/-- A message that is just posted has no sections. -/
theorem sections_of_post {host : Host σ} {mode : TidyMode} {c d : Conversation} {s t : σ}
    {m : Report.Message} {slept : Nat} (posted : c.post host mode s = (⟨.ok m, d, slept⟩, t)) :
    m.sections = [] := by
  rcases tidied : c.tidy host mode s with ⟨outcome, d', u⟩
  rcases linked : d'.linkedLayout host Retry.instant u with ⟨layout, n, v⟩
  rcases made : host.create d'.changeRequest (Report.build layout [] "") v with ⟨created, t'⟩
  rw [Conversation.post, Conversation.postTimed_eq tidied linked made] at posted
  have message := congrArg (·.1.message) posted
  cases created with
  | error e => cases message
  | ok id =>
      obtain rfl := Except.ok.inj message
      rfl

/-- The run of a check tells of the applications that it is given and of those that they define,
with one outcome and one section for each. -/
theorem Ran.reported {host : Host σ} {source : ManifestSource} {c : Config} {request : ChangeRequest}
    {names : List String} {s : σ} {run : State σ} (h : Ran host source c request names s run) :
    Reported (crewOf source) names run := by
  obtain ⟨posted, path, ended⟩ := h
  exact reported_of_follow (sections_of_post posted) path ended

/-- How a check goes on applications that are settled. It has no host, or it prints what a report
on these names and this source comes to, which a dry run keeps in memory. -/
inductive Checked (w : Surroundings τ) (a : CheckArgs) (c : Config) (source : ManifestSource)
    (names : List String) (s : τ) : Output → Prop
  | unconnected {e} (real : a.dryRun = false) (refused : Host.ofConfig w.transport c.vcs = .error e) :
      Checked w a c source names s (failed "" "" (connectFailure e))
  | inMemory {answer} (dry : a.dryRun = true)
      (reports : Reports (Host.Memory.host c.vcs.provider) source c a.changeRequest names .empty
        answer) :
      Checked w a c source names s (reportOutput w.color true answer)
  | onHost {host answer} (real : a.dryRun = false)
      (connected : Host.ofConfig w.transport c.vcs = .ok host)
      (reports : Reports host source c a.changeRequest names s answer) :
      Checked w a c source names s (reportOutput w.color false answer)

theorem checked_checkAll (w : Surroundings τ) (a : CheckArgs) (c : Config) (source : ManifestSource)
    (names : List String) (s : τ) :
    Checked w a c source names s (checkAll w a c source names s).1 := by
  cases dry : a.dryRun with
  | true =>
      simp only [checkAll, dry, if_true]
      exact .inMemory dry (reports_report ..)
  | false =>
      cases connected : Host.ofConfig w.transport c.vcs with
      | error e =>
          simp only [checkAll, dry, connected]
          exact .unconnected dry connected
      | ok host =>
          simp only [checkAll, dry, connected]
          exact .onHost dry connected (reports_report ..)

/-- A check of applications, from where they are listed to what it prints: its run begins with the
name of each of them, once, and reads the manifests of the last definition of the name. -/
theorem exists_checked {w : Surroundings τ} {a : CheckArgs} {earlier later given : List AppManifests}
    (first : Listed w.files (w.directory.map Config.globalFile) earlier)
    (second : Listed w.files (some (FileTree.join w.files.cwd Config.fileName)) later)
    (gives : Given a given) (some : earlier ++ later ++ given ≠ []) :
    ∃ c names source, config w = .ok c ∧
      Resolved w.files c.diff.defaultNamespace (earlier ++ later ++ given) names source ∧
      ∀ s, Checked w a (CheckArgs.over a c) source names s (check w a s).1 := by
  obtain ⟨c, loaded, listed⟩ := exists_config first second
  obtain ⟨names, source, resolved, checks⟩ := check_eq_checkAll loaded listed gives some
  refine ⟨c, names, source, loaded, resolved, fun s => ?_⟩
  rw [checks]
  exact checked_checkAll w a _ source names s

end ChangeReport.Program
