import ExperimentScript.Format.Constant
import ExperimentScript.Text.Digit
import ExperimentScript.Text.Word

/-
  Scripts in their canonical notation: one statement a line,
  each ended by a semicolon, the bodies of blocks and
  switches indented, and only the parentheses that reading
  the text back needs.

  Key definitions include:
    * `ExperimentScript.Format.Options`
    * `ExperimentScript.Format.level`
    * `ExperimentScript.Format.bare`
    * `ExperimentScript.Format.script`
-/

namespace ExperimentScript

namespace Format

variable {α : Type}

------------------------------------------------------------
-- Options
------------------------------------------------------------

/-
  How many blanks a level is indented, and whether embedded
  strings are going to be read as JSON.
-/
structure Options where
  indent : Int
  strict : Bool

/- The blanks at the front of a line at a depth. -/
def Options.margin
    [Room]
    (options : Options)
    (depth : Nat) :
    Except Failure Text :=
  (Text.margin (options.indent * depth)).mapError Failure.width

------------------------------------------------------------
-- Levels
------------------------------------------------------------

/- The sign of an operator between two operands. -/
def binarySign : BinaryOp → Text
  | .modulo => "%"
  | .divide => "/"
  | .greater => ">"
  | .less => "<"
  | .equals => "=="
  | .lessEqual => "<="
  | .greaterEqual => ">="

/- The sign of an operator between any number of operands. -/
def variadicSign : VariadicOp → Text
  | .sum => "+"
  | .product => "*"
  | .or => "||"
  | .and => "&&"
  | .coalesce => "??"

/- How tightly an operator between two operands binds. -/
def binaryLevel : BinaryOp → Nat
  | .equals => 3
  | .greater | .less | .greaterEqual | .lessEqual => 4
  | .divide | .modulo => 6

/- How tightly an operator between any number of operands binds. -/
def variadicLevel : VariadicOp → Nat
  | .or | .coalesce => 1
  | .and => 2
  | .sum => 5
  | .product => 6

/- How tightly an operator before its operand binds. -/
def unaryLevel : Nat := 7

/- How tightly an index and a call bind. -/
def postLevel : Nat := 8

/-
  How tightly the outermost part of a node binds. An
  if-chain and a return reach as far right as they can.
-/
def level : Node α → Nat
  | .cond _ _ | .return _ _ => 0
  | .unary .not (.binary .equals _ _ _) _ => binaryLevel .equals
  | .variadic op _ _ => variadicLevel op
  | .binary op _ _ _ => binaryLevel op
  | .unary _ _ _ => unaryLevel
  | .index _ _ _ | .call _ _ _ | .callNamed _ _ _ => postLevel
  | _ => 9

/- Whether a node is an operator's own with any number of operands. -/
def isVariadic
    (op : VariadicOp) :
    Node α → Bool
  | .variadic inner _ _ => inner = op
  | _ => false

------------------------------------------------------------
-- Parentheses
------------------------------------------------------------

/- A text between parentheses if they are needed. -/
def parens
    (needed : Bool)
    (text : Text) :
    Text :=
  if needed then "(" ++ text ++ ")" else text

/- Whether a word at the front of a text would be read as a connective. -/
def startsWithWord
    (word : Text)
    (text : Text) :
    Bool :=
  word.isPrefixOf text && text != word &&
    Text.atWordEnd (text.drop word.length)

/- Whether a text begins with a sign that would join a number. -/
def startsSigned : Text → Bool
  | .char '-' :: c :: _ => c.isAsciiDigit || c == '.'
  | _ => false

/-
  A negated operand. A blank keeps the sign from being read
  as part of a number.
-/
def negated (operand : Text) : Text :=
  match operand with
  | [] => "-"
  | c :: _ =>
    if c.isDigit || c == '.' then "- " ++ operand
    else "-" ++ operand

/-
  The consequence of a guard. A nested chain would take the
  branches after it, and a connective or a signed number
  would be read with what stands before it.
-/
def consequence
    (node : Node α)
    (text : Text) :
    Text :=
  let reachesRight :=
    match node with
    | .cond _ _ | .return _ _ => true
    | _ => false
  parens
    (reachesRight || startsWithWord "then" text ||
      startsSigned text)
    text

------------------------------------------------------------
-- Notation
------------------------------------------------------------

variable [Room]

mutual

/-
  A node without parentheses around it, in which nodes nest up
  to a number of levels. A node that is written as a part of
  the one around it counts as well.
-/
def bare
    (options : Options)
    (depth : Nat) :
    Nat → Node α → Except Failure Text
  | 0, _ => .error .nestedTooDeeply
  | levels + 1, .literal value true _ => do
    return "@" ++ (← embedded options.strict levels value)
  | _ + 1, .literal value false _ => constant value
  | _ + 1, .variable name _ => .ok name
  | _ + 1, .sequence [] _ => .ok "\x7b\x7d"
  | levels + 1, .sequence (first :: rest) _ => do
    let lines ← statements options (depth + 1) levels (first :: rest)
    let margin ← options.margin depth
    return "\x7b\n" ++ Text.join "\n" lines ++ "\n" ++
      margin ++ "\x7d"
  | levels + 1, .array items _ => do
    return "[" ++ Text.join ", " (← nodes options depth levels items) ++ "]"
  | levels + 1, .index base position _ => do
    let baseText ← bare options depth levels base
    let positionText ← bare options depth levels position
    return parens (level base < postLevel) baseText ++
      "[" ++ positionText ++ "]"
  | levels + 1, .call name arguments _ => do
    let texts ← nodes options depth levels arguments
    return name ++ "(" ++ Text.join ", " texts ++ ")"
  | levels + 1, .callNamed name arguments _ => do
    let texts ← namedNodes options depth levels arguments
    return name ++ "(" ++ Text.join ", " texts ++ ")"
  | levels + 1, .unary .not (.binary .equals left right _) _ => do
    let bound := binaryLevel .equals
    let leftText ← bare options depth (levels - 1) left
    let rightText ← bare options depth (levels - 1) right
    return parens (level left < bound) leftText ++ " != " ++
      parens (level right < bound + 1) rightText
  | levels + 1, .unary .not operand _ => do
    let text ← bare options depth levels operand
    return "!" ++ parens (level operand < unaryLevel) text
  | levels + 1, .unary .negate operand _ => do
    let text ← bare options depth levels operand
    return negated (parens (level operand < unaryLevel) text)
  | levels + 1, .variadic op operands _ => do
    match operands with
    | [] => throw .noOperands
    | first :: rest =>
      let firstText ← bare options depth levels first
      let wrapped :=
        parens
          (isVariadic op first || level first < variadicLevel op)
          firstText
      let restTexts ← furtherOperands options depth levels op rest
      return Text.join " " (wrapped :: restTexts)
  | levels + 1, .binary op left right _ => do
    let bound := binaryLevel op
    let leftText ← bare options depth levels left
    let rightText ← bare options depth levels right
    return parens (level left < bound) leftText ++
      " " ++ binarySign op ++ " " ++
      parens (level right < bound + 1) rightText
  | _ + 1, .switch [] _ => .ok "switch \x7b\x7d"
  | levels + 1, .switch (first :: rest) _ => do
    let lines ← cases options (depth + 1) levels (first :: rest)
    let margin ← options.margin depth
    return "switch \x7b\n" ++ Text.join "\n" lines ++ "\n" ++
      margin ++ "\x7d"
  | levels + 1, .cond steps _ => do
    return Text.join " " (← branches options depth levels true steps)
  | levels + 1, .return value _ => do
    return "return " ++ (← bare options depth levels value)
  | _ + 1, .assign name value mark =>
    .error (.noNotation (Node.label (.assign name value mark)))
  | _ + 1, .fragment .missing => .error .missingPart
  | _ + 1, .fragment part => .error (.noNotation part.label)

/- The lines of some statements. -/
def statements
    (options : Options)
    (depth levels : Nat) :
    List (Node α) → Except Failure (List Text)
  | [] => .ok []
  | .assign name value _ :: rest => do
    let margin ← options.margin depth
    let text ← bare options depth (levels - 1) value
    return (margin ++ name ++ " = " ++ text ++ ";") ::
      (← statements options depth levels rest)
  | node :: rest => do
    let margin ← options.margin depth
    let text ← bare options depth levels node
    return (margin ++ text ++ ";") ::
      (← statements options depth levels rest)

/- Some nodes, each without parentheses. -/
def nodes
    (options : Options)
    (depth levels : Nat) :
    List (Node α) → Except Failure (List Text)
  | [] => .ok []
  | node :: rest => do
    let first ← bare options depth levels node
    return first :: (← nodes options depth levels rest)

/- Some named arguments. -/
def namedNodes
    (options : Options)
    (depth levels : Nat) :
    List (Text × Node α) → Except Failure (List Text)
  | [] => .ok []
  | (name, node) :: rest => do
    let first ← bare options depth levels node
    return (name ++ "=" ++ first) ::
      (← namedNodes options depth levels rest)

/-
  The operands after the first, each after its sign. A
  negated operand of a sum is written as a difference.
-/
def furtherOperands
    (options : Options)
    (depth levels : Nat)
    (op : VariadicOp) :
    List (Node α) → Except Failure (List Text)
  | [] => .ok []
  | .unary .negate operand mark :: rest => do
    let first ←
      if op = .sum then do
        let text ← bare options depth (levels - 1) operand
        pure ("- " ++ parens (level operand < variadicLevel op + 1) text)
      else do
        let text ← bare options depth levels (.unary .negate operand mark)
        pure (variadicSign op ++ " " ++
          parens (unaryLevel < variadicLevel op + 1) text)
    return first :: (← furtherOperands options depth levels op rest)
  | node :: rest => do
    let text ← bare options depth levels node
    let wrapped := parens (level node < variadicLevel op + 1) text
    return (variadicSign op ++ " " ++ wrapped) ::
      (← furtherOperands options depth levels op rest)

/- The lines of the cases of a switch. -/
def cases
    (options : Options)
    (depth levels : Nat) :
    List (Case α) → Except Failure (List Text)
  | [] => .ok []
  | .mk guard result :: rest => do
    let margin ← options.margin depth
    let guardText ← bare options depth levels guard
    let resultText ← bare options depth levels result
    let line :=
      margin ++
        parens (startsWithWord "case" guardText) guardText ++
        " => " ++ resultText ++ ";"
    return line :: (← cases options depth levels rest)

/- The steps of an if-chain; all but the first go on from an `else`. -/
def branches
    (options : Options)
    (depth levels : Nat)
    (isFirst : Bool) :
    List (Branch α) → Except Failure (List Text)
  | [] => .ok []
  | .otherwise node :: rest => do
    let text ← bare options depth levels node
    return ("else " ++ consequence node text) ::
      (← branches options depth levels false rest)
  | .test guard node :: rest => do
    let text ← bare options depth levels node
    let guardText ← bare options depth levels guard
    let word : Text := if isFirst then "if (" else "else if ("
    return (word ++ guardText ++ ") " ++ consequence node text) ::
      (← branches options depth levels false rest)

end

------------------------------------------------------------
-- Scripts
------------------------------------------------------------

/- The canonical text of a whole script. -/
def script
    (options : Options) :
    Node α → Except Failure Text
  | .sequence body _ => do
    match ← statements options 0 Room.formatLevels body with
    | [] => return []
    | lines => return Text.join "\n" lines ++ "\n"
  | _ => .error .notAScript

end Format

end ExperimentScript
