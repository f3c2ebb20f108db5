import ExperimentScript.Editor.Session

/-
  Requests of an editor and the answers of a session to them.

  Every request is about one document. Documents that are
  opened, changed or closed give the session a new state, and
  so does no other request.

  Key definitions include:
    * `ExperimentScript.Editor.Request`
    * `ExperimentScript.Editor.Answer`
    * `ExperimentScript.Editor.Session.handle`
    * `ExperimentScript.Editor.Session.after`
    * `ExperimentScript.Editor.Session.exchanges`
-/

namespace ExperimentScript

namespace Editor

------------------------------------------------------------
-- Requests
------------------------------------------------------------

/- What an editor tells or asks about a document. -/
inductive Action where
  | opened (source : Text)
  | changed (texts : List Text)
  | closed
  | symbols
  | format

namespace Action

/- The text that a document has from now on, if it is given one. -/
def source? : Action → Option Text
  | .opened source => some source
  | .changed texts => some (texts.getLastD [])
  | _ => none

/- Whether a document is only asked about. -/
def isQuestion : Action → Bool
  | .symbols | .format => true
  | _ => false

end Action

/- An action and the identifier of the document it is about. -/
structure Request where
  uri : Text
  action : Action

/-
  What a session says to a request. A document that is taken
  in has its reports published, unless it has no settings.
-/
inductive Answer where
  | published (uri : Text) (reports : List Report)
  | refused (error : SettingsError)
  | silent
  | symbols (symbols : List Symbol)
  | edit (outcome : Except Format.Failure (Option Edit))

------------------------------------------------------------
-- Answers
------------------------------------------------------------

namespace Session

variable [Room] [Locator]

/- The session and the answer after a document is taken in or refused. -/
def settle
    (session : Session)
    (uri : Text)
    (outcome : Except SettingsError (Session × Document)) :
    Session × Answer :=
  match outcome with
  | .error error => (session, .refused error)
  | .ok (next, document) => (next, .published uri document.reports)

/- The session and the answer after a request. -/
def handle
    (tree : FileTree)
    (session : Session)
    (request : Request) :
    Session × Answer :=
  let uri := request.uri
  match request.action with
  | .opened source =>
    session.settle uri (session.openDocument tree uri source)
  | .changed texts =>
    session.settle uri (session.changeDocument tree uri texts)
  | .closed => (session.closeDocument uri, .silent)
  | .symbols => (session, .symbols (session.symbols uri))
  | .format => (session, .edit (session.formatEdit? uri))

/- The session after some requests. -/
def after
    (tree : FileTree)
    (session : Session)
    (requests : List Request) :
    Session :=
  requests.foldl
    (fun session request => (session.handle tree request).1) session

/- Some requests, each with the answer to it. -/
def exchanges
    (tree : FileTree)
    (session : Session) :
    List Request → List (Request × Answer)
  | [] => []
  | request :: requests =>
    let (next, answer) := session.handle tree request
    (request, answer) :: exchanges tree next requests

end Session

end Editor

end ExperimentScript
