import ExperimentScript.Parser.Expression

/-
  Reading a whole script into its tree.

  Key definitions include:
    * `ExperimentScript.script`
    * `ExperimentScript.parseTokens`
    * `ExperimentScript.parse`
-/

namespace ExperimentScript

/- How deep the expressions of a script may nest. -/
def maxDepth : Nat := 1000

/- The statements of a script up to its end. -/
def script (strict : Bool) : Parse (Node Span) := do
  let statements ←
    Production.statements (expression strict maxDepth) .endOfInput
      (← get).fuel
  let close := (← Parse.current).span
  return .sequence statements ⟨.start, close.last⟩

/- The tree of a script that has been read into tokens. -/
def parseTokens
    (strict : Bool)
    (tokens : List Token) :
    Except SyntaxError (Node Span) :=
  match (script strict).run (Cursor.start tokens) with
  | .ok tree _ => .ok tree
  | .error error _ => .error error

/-
  The tree of a script. The whole text is read into tokens
  before any tree is built.
-/
def parse
    (strict : Bool)
    (text : Text) :
    Except ScriptError (Node Span) :=
  match tokenize text with
  | .error error => .error (.lexical error)
  | .ok tokens =>
    match parseTokens strict tokens with
    | .error error => .error (.syntactic error)
    | .ok tree => .ok tree

end ExperimentScript
