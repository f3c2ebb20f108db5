import Mathlib.Data.List.Induction
import ExperimentScript.Editor.Request
import ExperimentScript.Proofs.Script.Fields

/-
  What a session knows of a document after any requests, over
  a file tree that stays as it is.

  A step says what a request does to the document it is about,
  and that it does nothing to any other. By induction on the
  requests from the last one back, the entry of a document is
  the analysis of its latest text. Sessions with the same
  entry for a document give the same answers about it, so
  requests about other documents can be left out.

  Key definitions include:
    * `ExperimentScript.Editor.LeavesText`
    * `ExperimentScript.Editor.Document.IsAnalyzed`
    * `ExperimentScript.Editor.Session.Records`

  Main declarations:
    * `ExperimentScript.Editor.Document.isAnalyzed_analyze`
    * `ExperimentScript.Editor.Session.get?_handle_of_ne`
    * `ExperimentScript.Editor.Session.handle_congr`
    * `ExperimentScript.Editor.Session.get?_after`
    * `ExperimentScript.Editor.Session.records_after`
-/

namespace ExperimentScript

namespace Editor

------------------------------------------------------------
-- Analyses
------------------------------------------------------------

/-
  A document holds what is found out by reading its text with
  its settings. Its script is missing exactly if there is a
  report, which is then that of the error in the text.
-/
structure Document.IsAnalyzed
    (document : Document)
    (uri : Text) : Prop where
  isSome_iff :
    document.script?.isSome = true ↔ document.reports = []
  of_isSome :
    ∀ script, document.script? = some script →
      tokenize document.source = .ok document.tokens ∧
        parse document.settings.isStrict document.source =
          .ok script
  of_isNone :
    document.script? = none →
      ∃ error,
        parse document.settings.isStrict document.source =
            .error error ∧
          document.reports = [Report.ofError uri error]

/- The analysis of a text keeps the text and the settings. -/
theorem Document.analyze_eq
    (uri source : Text)
    (settings : Settings) :
    (analyze uri source settings).source = source ∧
      (analyze uri source settings).settings = settings := by
  unfold analyze
  dsimp only
  split
  · exact ⟨rfl, rfl⟩
  · split
    · exact ⟨rfl, rfl⟩
    · exact ⟨rfl, rfl⟩

theorem Document.isAnalyzed_analyze
    (uri source : Text)
    (settings : Settings) :
    (analyze uri source settings).IsAnalyzed uri := by
  unfold analyze
  dsimp only
  cases hTokens : tokenize source with
  | error error =>
      refine ⟨by simp, nofun, fun _ => ⟨.lexical error, ?_, rfl⟩⟩
      simp only [parse, hTokens]
  | ok tokens =>
      dsimp only
      cases hTree : parseTokens settings.isStrict tokens with
      | error error =>
          refine ⟨by simp, nofun, fun _ => ⟨.syntactic error, ?_, rfl⟩⟩
          simp only [parse, hTokens, hTree]
      | ok script =>
          refine ⟨by simp, ?_, nofun⟩
          rintro _ ⟨⟩
          refine ⟨hTokens, ?_⟩
          simp only [parse, hTokens, hTree]

------------------------------------------------------------
-- Latest Texts
------------------------------------------------------------

/-
  Some requests leave a document with a text: one of them
  gives it this text, and after that one it is only asked
  about.
-/
def LeavesText
    (requests : List Request)
    (uri source : Text) : Prop :=
  ∃ earlier request later,
    requests = earlier ++ request :: later ∧
      request.uri = uri ∧
        request.action.source? = some source ∧
          ∀ other ∈ later, other.uri = uri →
            other.action.isQuestion = true

variable {requests : List Request}
variable {request : Request}
variable {uri source : Text}

theorem not_leavesText_nil : ¬ LeavesText [] uri source := by
  rintro ⟨earlier, request, later, hRequests, _⟩
  exact List.append_ne_nil_of_right_ne_nil earlier
    (List.cons_ne_nil request later) hRequests.symm

/- A question gives a document no text. -/
theorem isQuestion_of_source?
    {action : Action}
    (hSource : action.source? = some source) :
    action.isQuestion = false := by
  cases action with
  | opened given => rfl
  | changed texts => rfl
  | closed => rfl
  | symbols => cases hSource
  | format => cases hSource

/- The last request gives a text, or leaves the one there was. -/
theorem leavesText_concat :
    LeavesText (requests ++ [request]) uri source ↔
      (request.uri = uri ∧
          request.action.source? = some source) ∨
        ((request.uri = uri →
            request.action.isQuestion = true) ∧
          LeavesText requests uri source) := by
  constructor
  · rintro ⟨earlier, given, later, hRequests, hUri, hSource, hLater⟩
    rcases List.eq_nil_or_concat later with rfl | ⟨more, last, rfl⟩
    · rcases List.append_inj' hRequests rfl with ⟨_, hLast⟩
      cases hLast
      exact .inl ⟨hUri, hSource⟩
    · rw [List.concat_eq_append, ← List.cons_append,
        ← List.append_assoc] at hRequests
      rcases List.append_inj' hRequests rfl with ⟨hFront, hLast⟩
      cases hLast
      rw [List.concat_eq_append, List.forall_mem_append] at hLater
      exact .inr
        ⟨hLater.2 request (List.mem_singleton_self request),
          earlier, given, more, hFront, hUri, hSource, hLater.1⟩
  · rintro (⟨hUri, hSource⟩ |
      ⟨hQuestion, earlier, given, later, rfl, hUri, hSource, hLater⟩)
    · exact ⟨requests, request, [], rfl, hUri, hSource, nofun⟩
    · refine ⟨earlier, given, later ++ [request], ?_, hUri, hSource,
        ?_⟩
      · rw [List.append_assoc, List.cons_append]
      · rw [List.forall_mem_append, List.forall_mem_singleton]
        exact ⟨hLater, hQuestion⟩

/- Questions and requests about other documents leave a text as it is. -/
theorem leavesText_concat_of_isQuestion
    (hQuestion :
      request.uri = uri → request.action.isQuestion = true) :
    LeavesText (requests ++ [request]) uri source ↔
      LeavesText requests uri source := by
  rw [leavesText_concat, or_iff_right, and_iff_right hQuestion]
  rintro ⟨hUri, hSource⟩
  have hOther := hQuestion hUri
  rw [isQuestion_of_source? hSource] at hOther
  cases hOther

------------------------------------------------------------
-- Steps
------------------------------------------------------------

namespace Session

variable [Room] [Locator]
variable {tree : FileTree}
variable {session other : Session}

/-
  The settings with which a request takes a document in: those
  it has already if it is changed, else those of the tree.
-/
def settingsOf
    (tree : FileTree)
    (session : Session)
    (request : Request) :
    Except SettingsError Settings :=
  match request.action, session.documents.get? request.uri with
  | .changed _, some document => .ok document.settings
  | _, _ => settingsFor tree request.uri

/- The session with a document taken in, and its reports. -/
def takeIn
    (session : Session)
    (uri source : Text)
    (settings : Settings) :
    Session × Answer :=
  let document := Document.analyze uri source settings
  (⟨session.documents.set uri document⟩,
    .published uri document.reports)

/- A request that gives a text is refused or has the document taken in. -/
theorem handle_of_source?
    (hSource : request.action.source? = some source) :
    session.handle tree request =
      match settingsOf tree session request with
      | .error error => (session, .refused error)
      | .ok settings => session.takeIn request.uri source settings := by
  rcases request with ⟨uri, action⟩
  cases action with
  | opened given =>
      cases hSource
      simp only [handle, settle, openDocument, settingsOf]
      cases settingsFor tree uri with
      | error error => rfl
      | ok settings => rfl
  | changed texts =>
      cases hSource
      simp only [handle, settle, changeDocument, settingsOf]
      cases session.documents.get? uri with
      | some document => rfl
      | none =>
          cases settingsFor tree uri with
          | error error => rfl
          | ok settings => rfl
  | closed => cases hSource
  | symbols => cases hSource
  | format => cases hSource

/- Settings that a document has already are those of the tree. -/
theorem settingsOf_eq
    (hKept :
      ∀ document,
        session.documents.get? request.uri = some document →
          settingsFor tree request.uri = .ok document.settings) :
    settingsOf tree session request =
      settingsFor tree request.uri := by
  unfold settingsOf
  split
  · rename_i hEntry
    exact (hKept _ hEntry).symm
  · rfl

/- A question changes nothing. -/
theorem handle_of_isQuestion
    (hQuestion : request.action.isQuestion = true) :
    (session.handle tree request).1 = session := by
  rcases request with ⟨uri, action⟩
  cases action with
  | opened given => cases hQuestion
  | changed texts => cases hQuestion
  | closed => cases hQuestion
  | symbols => rfl
  | format => rfl

/- A document that is taken in is the only one that changes. -/
omit [Room] [Locator] in
theorem get?_takeIn
    (settings : Settings)
    (name : Text) :
    (session.takeIn uri source settings).1.documents.get? name =
      if name = uri then some (Document.analyze uri source settings)
      else session.documents.get? name :=
  Fields.get?_set ..

/- A document that is closed is the only one that goes. -/
omit [Room] [Locator] in
theorem get?_closeDocument (uri name : Text) :
    (session.closeDocument uri).documents.get? name =
      if name = uri then none else session.documents.get? name :=
  Fields.get?_filter ..

/- A request leaves all documents alone but the one it is about. -/
theorem get?_handle_of_ne (hOther : uri ≠ request.uri) :
    (session.handle tree request).1.documents.get? uri =
      session.documents.get? uri := by
  cases hSource : request.action.source? with
  | some source =>
      rw [handle_of_source? hSource]
      cases settingsOf tree session request with
      | error error => rfl
      | ok settings =>
          dsimp only
          rw [get?_takeIn, if_neg hOther]
  | none =>
      rcases request with ⟨about, action⟩
      cases action with
      | opened given => cases hSource
      | changed texts => cases hSource
      | closed => exact (get?_closeDocument ..).trans (if_neg hOther)
      | symbols => rfl
      | format => rfl

/-
  What a request does to its document and what is answered
  depends on no other document.
-/
theorem handle_congr
    (tree : FileTree)
    (hSame :
      session.documents.get? request.uri =
        other.documents.get? request.uri) :
    (session.handle tree request).2 = (other.handle tree request).2 ∧
      (session.handle tree request).1.documents.get? request.uri =
        (other.handle tree request).1.documents.get? request.uri := by
  cases hSource : request.action.source? with
  | some source =>
      have hSettings :
          settingsOf tree session request =
            settingsOf tree other request := by
        simp only [settingsOf, hSame]
      rw [handle_of_source? hSource, handle_of_source? hSource,
        hSettings]
      cases settingsOf tree other request with
      | error error => exact ⟨rfl, hSame⟩
      | ok settings =>
          refine ⟨rfl, ?_⟩
          dsimp only
          rw [get?_takeIn, get?_takeIn, if_pos rfl, if_pos rfl]
  | none =>
      rcases request with ⟨uri, action⟩
      have hScript : session.script? uri = other.script? uri := by
        simp only [script?, hSame]
      cases action with
      | opened given => cases hSource
      | changed texts => cases hSource
      | closed =>
          refine ⟨rfl, ?_⟩
          simp only [handle, get?_closeDocument, if_true]
      | symbols =>
          refine ⟨?_, hSame⟩
          simp only [handle, symbols, hScript]
      | format =>
          refine ⟨?_, hSame⟩
          simp only [handle, formatEdit?, hScript]

------------------------------------------------------------
-- Runs
------------------------------------------------------------

theorem after_concat
    (requests : List Request)
    (request : Request) :
    session.after tree (requests ++ [request]) =
      ((session.after tree requests).handle tree request).1 := by
  rw [after, List.foldl_append]
  rfl

/-
  The entry of a document is the analysis of the text it was
  left with, and there is none without a text or settings.
-/
theorem get?_after
    (tree : FileTree)
    (requests : List Request)
    (uri : Text)
    (document : Document) :
    (empty.after tree requests).documents.get? uri = some document ↔
      ∃ source settings,
        LeavesText requests uri source ∧
          settingsFor tree uri = .ok settings ∧
            document = Document.analyze uri source settings := by
  induction requests using List.reverseRecOn
    generalizing document with
  | nil =>
      refine iff_of_false nofun ?_
      rintro ⟨source, settings, hText, _⟩
      exact not_leavesText_nil hText
  | append_singleton requests request ih =>
      -- Either the entry is left as it is, or the request is about
      -- this document and no question.
      rw [after_concat]
      by_cases hIdle :
          request.uri = uri → request.action.isQuestion = true
      · have hSame :
            ((empty.after tree requests).handle tree
                request).1.documents.get? uri =
              (empty.after tree requests).documents.get? uri := by
          by_cases hUri : request.uri = uri
          · rw [handle_of_isQuestion (hIdle hUri)]
          · exact get?_handle_of_ne fun hOther => hUri hOther.symm
        rw [hSame, ih]
        simp only [leavesText_concat_of_isQuestion hIdle]
      · rcases Classical.not_imp.mp hIdle with ⟨rfl, hNoQuestion⟩
        cases hSource : request.action.source? with
        | none =>
            rcases request with ⟨uri, action⟩
            cases action with
            | opened given => cases hSource
            | changed texts => cases hSource
            | closed =>
                rw [handle, get?_closeDocument, if_pos rfl]
                refine iff_of_false nofun ?_
                rintro ⟨source, settings, hText, _⟩
                rcases leavesText_concat.mp hText with
                  ⟨_, hGiven⟩ | ⟨hQuestion, _⟩
                · cases hGiven
                · cases hQuestion rfl
            | symbols => exact absurd rfl hNoQuestion
            | format => exact absurd rfl hNoQuestion
        | some given =>
            have hKept :
                ∀ document,
                  (empty.after tree requests).documents.get?
                      request.uri = some document →
                    settingsFor tree request.uri =
                      .ok document.settings := by
              intro document hEntry
              rcases (ih document).mp hEntry with
                ⟨source, settings, _, hSettings, rfl⟩
              rw [hSettings, (Document.analyze_eq _ _ _).2]
            have hText :
                ∀ source,
                  LeavesText (requests ++ [request]) request.uri
                      source ↔
                    source = given := by
              intro source
              rw [leavesText_concat, hSource]
              simp [hNoQuestion, eq_comm]
            rw [handle_of_source? hSource, settingsOf_eq hKept]
            simp only [hText]
            cases hSettings : settingsFor tree request.uri with
            | error error =>
                refine iff_of_false (fun hEntry => ?_) ?_
                · rw [hKept document hEntry] at hSettings
                  cases hSettings
                · rintro ⟨source, settings, _, hResolved, _⟩
                  cases hResolved
            | ok settings =>
                dsimp only
                rw [get?_takeIn, if_pos rfl]
                simp [eq_comm]

/- The settings of a document that is open are those of the tree. -/
theorem settingsFor_of_get?_after
    {document : Document}
    (hEntry :
      (empty.after tree requests).documents.get? uri =
        some document) :
    settingsFor tree uri = .ok document.settings := by
  rcases (get?_after tree requests uri document).mp hEntry with
    ⟨source, settings, _, hSettings, rfl⟩
  rw [hSettings, (Document.analyze_eq _ _ _).2]

/- Requests with the answers about a document do not need the others. -/
theorem exchanges_filter
    (tree : FileTree)
    (uri : Text)
    (requests : List Request)
    (hSame :
      session.documents.get? uri = other.documents.get? uri) :
    (session.exchanges tree requests).filter (·.1.uri = uri) =
      other.exchanges tree (requests.filter (·.uri = uri)) := by
  induction requests generalizing session other with
  | nil => rfl
  | cons request requests ih =>
      rw [exchanges]
      by_cases hUri : request.uri = uri
      · subst hUri
        rcases handle_congr tree hSame with ⟨hAnswer, hEntry⟩
        rw [List.filter_cons_of_pos (by simp),
          List.filter_cons_of_pos (by simp), exchanges, hAnswer,
          ih hEntry]
      · have hEntry :
            (session.handle tree request).1.documents.get? uri =
              other.documents.get? uri :=
          (get?_handle_of_ne fun h => hUri h.symm).trans hSame
        rw [List.filter_cons_of_neg (by simpa using hUri),
          List.filter_cons_of_neg (by simpa using hUri), ih hEntry]

------------------------------------------------------------
-- Records
------------------------------------------------------------

/-
  What a session holds of a document after some requests, and
  what it does with the next one.

  A document is open if it was left with a text and has
  settings, and its entry is the analysis of this text. A
  text that is given next has the reports of its own analysis
  published, or is refused with nothing changed.
-/
structure Records
    (tree : FileTree)
    (requests : List Request)
    (uri : Text)
    (session : Session) : Prop where
  isOpen_iff :
    (session.documents.get? uri).isSome = true ↔
      (∃ settings, settingsFor tree uri = .ok settings) ∧
        ∃ source, LeavesText requests uri source
  entry :
    ∀ document, session.documents.get? uri = some document →
      LeavesText requests uri document.source ∧
        settingsFor tree uri = .ok document.settings ∧
          document.IsAnalyzed uri
  next :
    ∀ action source, action.source? = some source →
      (∃ document,
          settingsFor tree uri = .ok document.settings ∧
            (session.handle tree ⟨uri, action⟩).1.documents.get?
                uri = some document ∧
              (session.handle tree ⟨uri, action⟩).2 =
                .published uri document.reports) ∨
        ∃ error,
          settingsFor tree uri = .error error ∧
            session.handle tree ⟨uri, action⟩ =
              (session, .refused error)

/-
  After any requests a session holds of every document what
  its latest text says, and no answer about a document depends
  on requests about others.
-/
theorem records_after
    (tree : FileTree)
    (requests : List Request)
    (uri : Text) :
    Records tree requests uri (empty.after tree requests) ∧
      (empty.exchanges tree requests).filter (·.1.uri = uri) =
        empty.exchanges tree (requests.filter (·.uri = uri)) := by
  refine ⟨⟨?_, ?_, ?_⟩, exchanges_filter tree uri requests rfl⟩
  · rw [Option.isSome_iff_exists]
    constructor
    · rintro ⟨document, hEntry⟩
      rcases (get?_after tree requests uri document).mp hEntry with
        ⟨source, settings, hText, hSettings, _⟩
      exact ⟨⟨settings, hSettings⟩, source, hText⟩
    · rintro ⟨⟨settings, hSettings⟩, source, hText⟩
      exact
        ⟨_, (get?_after tree requests uri _).mpr
          ⟨source, settings, hText, hSettings, rfl⟩⟩
  · intro document hEntry
    have hKept := settingsFor_of_get?_after hEntry
    rcases (get?_after tree requests uri document).mp hEntry with
      ⟨source, settings, hText, _, rfl⟩
    rw [(Document.analyze_eq uri source settings).1]
    exact ⟨hText, hKept, Document.isAnalyzed_analyze ..⟩
  · intro action source hSource
    rw [handle_of_source? hSource,
      settingsOf_eq fun _ => settingsFor_of_get?_after]
    dsimp only
    cases hSettings : settingsFor tree uri with
    | error error => exact .inr ⟨error, rfl, rfl⟩
    | ok settings =>
        refine .inl
          ⟨Document.analyze uri source settings, ?_, ?_, rfl⟩
        · rw [(Document.analyze_eq uri source settings).2]
        · dsimp only
          rw [get?_takeIn, if_pos rfl]

end Session

end Editor

end ExperimentScript
