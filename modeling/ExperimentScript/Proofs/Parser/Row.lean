import ExperimentScript.Proofs.Parser.Denotes
import ExperimentScript.Proofs.Parser.Passage
import ExperimentScript.Proofs.Script.Parts

/-
  Which tokens a node stands for.

  A node is put together from names of its own and from other
  nodes. Its tokens are those of its entries, one after the
  other, with silent tokens among them: signs, reserved words
  and connectives, of which a tree keeps nothing. The span of
  a node goes from the first of its tokens to the last one.
  Parentheses are silent as well, and those around a node are
  no tokens of it.

  Arguments that repeat a name are the exception: only the
  last value of the name is kept, in the place of the first.

  Key definitions include:
    * `ExperimentScript.Token.IsSilent`
    * `ExperimentScript.Balanced`
    * `ExperimentScript.RepeatsArgument`
    * `ExperimentScript.Node.entries?`
    * `ExperimentScript.Row`
    * `ExperimentScript.Segment`

  Main declarations:
    * `ExperimentScript.Forms.combine`
    * `ExperimentScript.Segment.combine`
    * `ExperimentScript.Segment.callNamed`
-/

namespace ExperimentScript

------------------------------------------------------------
-- Silent Tokens
------------------------------------------------------------

/- Whether tokens of a kind are part of what a tree keeps. -/
def TokenKind.isKept (kind : TokenKind) : Bool :=
  [.identifier, .number, .string, .trueWord, .falseWord,
    .nullWord, .at].contains kind

/- The kind that closes what a kind opens. -/
def TokenKind.closing? : TokenKind → Option TokenKind
  | .leftParen => some .rightParen
  | .leftBracket => some .rightBracket
  | .leftBrace => some .rightBrace
  | _ => none

/- Whether a kind opens or closes a group. -/
def TokenKind.isBracket (kind : TokenKind) : Bool :=
  [.leftParen, .rightParen, .leftBracket, .rightBracket,
    .leftBrace, .rightBrace].contains kind

/- Whether tokens of a kind are neither kept nor brackets. -/
def TokenKind.isSign (kind : TokenKind) : Bool :=
  !kind.isKept && !kind.isBracket

/- Brackets are not kept. -/
theorem TokenKind.not_isKept_of_closing?
    {opening closing : TokenKind}
    (hBrackets : opening.closing? = some closing) :
    opening.isKept = false ∧ closing.isKept = false := by
  cases opening <;> cases hBrackets <;> decide

/- Operators between operands are signs. -/
theorem TokenKind.isSign_of_level?
    {kind : TokenKind}
    {found : Nat}
    (hLevel : kind.level? = some found) :
    kind.isSign = true := by
  cases kind <;> first
    | rfl
    | cases hLevel

namespace Token

/- The constant that a token stands for by itself. -/
def constant? (token : Token) : Option Value :=
  match token.kind with
  | .trueWord => some (.bool true)
  | .falseWord => some (.bool false)
  | .nullWord => some .null
  | .number | .string => some (token.literal.getD .null)
  | _ => none

/- A name that may stand for nothing but itself. -/
def IsConnective (token : Token) : Prop :=
  token.kind = .identifier ∧
    (token.text = "case" ∨ token.text = "then")

/- A token of which a tree keeps nothing. -/
def IsSilent (token : Token) : Prop :=
  token.kind.isKept = false ∨ token.IsConnective

end Token

------------------------------------------------------------
-- Brackets
------------------------------------------------------------

/- Tokens in which every bracket is matched by one of its kind. -/
inductive Balanced : List Token → Prop where
  | nil : Balanced []
  | plain
      {token : Token}
      (hKind : token.kind.isBracket = false) :
      Balanced [token]
  | append
      {tokens others : List Token}
      (hTokens : Balanced tokens)
      (hOthers : Balanced others) :
      Balanced (tokens ++ others)
  | group
      {opening closing : Token}
      {tokens : List Token}
      (hBrackets : opening.kind.closing? = some closing.kind)
      (hTokens : Balanced tokens) :
      Balanced (opening :: (tokens ++ [closing]))

theorem Balanced.cons
    {token : Token}
    {tokens : List Token}
    (hKind : token.kind.isBracket = false)
    (hTokens : Balanced tokens) :
    Balanced (token :: tokens) :=
  .append (.plain hKind) hTokens

namespace Embedded

variable {strict : Bool}

mutual

theorem Denotes.balanced :
    ∀ {tokens : List Token} {value : Value},
      Denotes strict tokens value → Balanced tokens
  | _, _, .name hKind => .plain (by rw [hKind]; rfl)
  | _, _, .number hKind => .plain (by rw [hKind]; rfl)
  | _, _, .string hKind _ => .plain (by rw [hKind]; rfl)
  | _, _, .trueWord hKind => .plain (by rw [hKind]; rfl)
  | _, _, .falseWord hKind => .plain (by rw [hKind]; rfl)
  | _, _, .nullWord hKind => .plain (by rw [hKind]; rfl)
  | _, _, .emptyList hOpening hClosing =>
    .group (by rw [hOpening, hClosing]; rfl) .nil
  | _, _, .list hOpening hItems => by
    rcases hItems.balanced with ⟨inner, closing, rfl, hKind, hInner⟩
    exact .group (by rw [hOpening, hKind]; rfl) hInner
  | _, _, .emptyMap hOpening hClosing =>
    .group (by rw [hOpening, hClosing]; rfl) .nil
  | _, _, .map hOpening hFields => by
    rcases hFields.balanced with ⟨inner, closing, rfl, hKind, hInner⟩
    exact .group (by rw [hOpening, hKind]; rfl) hInner

theorem ItemsDenote.balanced :
    ∀ {tokens : List Token} {values : List Value},
      ItemsDenote strict tokens values →
      ∃ inner closing,
        tokens = inner ++ [closing] ∧
          closing.kind = .rightBracket ∧ Balanced inner
  | _, _, .last hItem hClosing =>
    ⟨_, _, rfl, hClosing, hItem.balanced⟩
  | _, _, .more hItem hComma hRest => by
    rcases hRest.balanced with ⟨inner, closing, rfl, hKind, hInner⟩
    exact
      ⟨_, closing, (List.append_assoc _ (_ :: _) _).symm, hKind,
        hItem.balanced.append
          (.cons (by rw [hComma]; rfl) hInner)⟩

theorem FieldsDenote.balanced :
    ∀ {tokens : List Token} {earlier fields : Fields Value},
      FieldsDenote strict earlier tokens fields →
      ∃ inner closing,
        tokens = inner ++ [closing] ∧
          closing.kind = .rightBrace ∧ Balanced inner
  | _, _, _, .last hName hColon hValue hClosing =>
    ⟨_ :: _ :: _, _, rfl, hClosing,
      .cons (by rw [hName]; rfl)
        (.cons (by rw [hColon]; rfl) hValue.balanced)⟩
  | _, _, _, .more hName hColon hValue hComma hRest => by
    rcases hRest.balanced with ⟨inner, closing, rfl, hKind, hInner⟩
    refine
      ⟨_, closing,
        (List.append_assoc (_ :: _ :: _) (_ :: _) _).symm, hKind, ?_⟩
    exact
      .cons (by rw [hName]; rfl)
        (.cons (by rw [hColon]; rfl)
          (hValue.balanced.append
            (.cons (by rw [hComma]; rfl) hInner)))

end

end Embedded

------------------------------------------------------------
-- Repeated Names
------------------------------------------------------------

/- Tokens are named arguments with commas between them. -/
inductive NamesArguments : List Token → List Text → Prop where
  | last
      {name sign : Token}
      {value : List Token}
      (hName : name.kind = .identifier)
      (hSign : sign.kind = .colon ∨ sign.kind = .assign)
      (hValue : Balanced value) :
      NamesArguments (name :: sign :: value) [name.text]
  | more
      {name sign comma : Token}
      {value tokens : List Token}
      {names : List Text}
      (hName : name.kind = .identifier)
      (hSign : sign.kind = .colon ∨ sign.kind = .assign)
      (hValue : Balanced value)
      (hComma : comma.kind = .comma)
      (hRest : NamesArguments tokens names) :
      NamesArguments
        (name :: sign :: (value ++ comma :: tokens))
        (name.text :: names)

/- The parentheses that end at a place enclose arguments of which two have one name. -/
def RepeatsArgument
    (tokens : List Token)
    (place : Point) : Prop :=
  ∃ before opening inner closing after names,
    tokens = before ++ opening :: (inner ++ closing :: after) ∧
      opening.kind = .leftParen ∧
      closing.kind = .rightParen ∧
      closing.span.last = place ∧
      NamesArguments inner names ∧ ¬ names.Nodup

/- Among more tokens there are the same arguments. -/
theorem RepeatsArgument.of_infix
    {tokens others : List Token}
    {place : Point}
    (hRepeats : RepeatsArgument tokens place)
    (hInfix : tokens <:+: others) :
    RepeatsArgument others place := by
  rcases hInfix with ⟨front, back, rfl⟩
  rcases hRepeats with
    ⟨before, opening, inner, closing, after, names, rfl, hRepeats⟩
  exact
    ⟨front ++ before, opening, inner, closing, after ++ back, names,
      by simp, hRepeats⟩

/- Without a comma there is only one argument. -/
theorem RepeatsArgument.exists_comma
    {tokens : List Token}
    {place : Point}
    (hRepeats : RepeatsArgument tokens place) :
    ∃ token ∈ tokens, token.kind = .comma := by
  rcases hRepeats with
    ⟨before, opening, inner, closing, after, names, rfl, -, -, -,
      hNames, hRepeated⟩
  cases hNames with
  | last => simp at hRepeated
  | more _ _ _ hComma => exact ⟨_, by simp, hComma⟩

------------------------------------------------------------
-- Extents
------------------------------------------------------------

namespace Span

/- The span from the first to the last of some tokens. -/
def ofTokens : List Token → Span
  | [] => ⟨.start, .start⟩
  | first :: tokens =>
    first.span.through (tokens.getLastD first).span

theorem ofTokens_append
    {tokens others : List Token}
    (hTokens : tokens ≠ [])
    (hOthers : others ≠ []) :
    ofTokens (tokens ++ others) =
      (ofTokens tokens).through (ofTokens others) := by
  rcases List.exists_cons_of_ne_nil hTokens with ⟨first, more, rfl⟩
  rcases List.exists_cons_of_ne_nil hOthers with ⟨other, rest, rfl⟩
  simp only [List.cons_append, ofTokens, through,
    List.getLastD_eq_getLast?, List.getLast?_append,
    List.getLast?_cons, Option.getD_some, Option.some_or]

theorem ofTokens_concat
    (first last : Token)
    (tokens : List Token) :
    ofTokens (first :: (tokens ++ [last])) =
      first.span.through last.span := by
  simp [ofTokens, List.getLastD_eq_getLast?]

/- Joining the spans of two operands covers what is between them. -/
theorem through_ofTokens
    {tokens others : List Token}
    (between : List Token)
    (hTokens : tokens ≠ [])
    (hOthers : others ≠ []) :
    (ofTokens tokens).through (ofTokens others) =
      ofTokens (tokens ++ (between ++ others)) := by
  by_cases hBetween : between = []
  · rw [hBetween, List.nil_append, ofTokens_append hTokens hOthers]
  · rw [ofTokens_append hTokens (by simp [hOthers]),
      ofTokens_append hBetween hOthers]
    rfl

end Span

------------------------------------------------------------
-- Entries
------------------------------------------------------------

/- What a node is put together from: its own names and other nodes. -/
inductive Entry where
  | name (name : Text)
  | part (node : Node Span)

namespace Entry

/- The entries of named arguments as they are written. -/
def named (arguments : List (Text × Node Span)) : List Entry :=
  arguments.flatMap fun argument =>
    [.name argument.1, .part argument.2]

/- The nodes among some entries. -/
def parts (entries : List Entry) : List (Node Span) :=
  entries.filterMap fun
    | .name _ => none
    | .part node => some node

@[simp] theorem parts_nil : parts [] = [] := rfl

@[simp] theorem parts_name
    (name : Text)
    (entries : List Entry) :
    parts (.name name :: entries) = parts entries := rfl

@[simp] theorem parts_part
    (node : Node Span)
    (entries : List Entry) :
    parts (.part node :: entries) = node :: parts entries := rfl

@[simp] theorem parts_append (entries others : List Entry) :
    parts (entries ++ others) = parts entries ++ parts others :=
  List.filterMap_append

@[simp] theorem parts_map (nodes : List (Node Span)) :
    parts (nodes.map .part) = nodes := by
  induction nodes with
  | nil => rfl
  | cons node nodes ih => simp [ih]

@[simp] theorem parts_named
    (arguments : List (Text × Node Span)) :
    parts (named arguments) = arguments.map Prod.snd := by
  induction arguments with
  | nil => rfl
  | cons argument arguments ih =>
      simpa [named] using ih

end Entry

/- The entries of a node that has any, from left to right. -/
def Node.entries? : Node Span → Option (List Entry)
  | .sequence nodes _ | .array nodes _ | .variadic _ nodes _ =>
    some (nodes.map .part)
  | .assign name value _ => some [.name name, .part value]
  | .return value _ | .unary _ value _ => some [.part value]
  | .index left right _ | .binary _ left right _ =>
    some [.part left, .part right]
  | .call name arguments _ =>
    some (.name name :: arguments.map .part)
  | .callNamed name arguments _ =>
    some (.name name :: Entry.named arguments)
  | .switch cases _ =>
    some ((cases.flatMap Case.parts).map .part)
  | .cond branches _ =>
    some ((branches.flatMap Branch.parts).map .part)
  | .variable _ _ | .literal _ _ _ | .fragment _ => none

/- The parts of a node are the nodes among its entries. -/
theorem Node.parts_of_entries?
    {node : Node Span}
    {entries : List Entry}
    (hEntries : node.entries? = some entries) :
    node.parts = Entry.parts entries := by
  cases node <;> cases hEntries <;> simp [Node.parts]

/- The fields of entries that are set one after the other. -/
def Fields.ofList
    {α : Type}
    (entries : List (Text × α)) :
    Fields α :=
  entries.foldl (fun fields entry => fields.set entry.1 entry.2) []

namespace Fields

variable {α : Type}

theorem foldl_set_of_nodup
    {earlier entries : Fields α}
    (hNames : (earlier.names ++ entries.names).Nodup) :
    entries.foldl (fun fields entry => fields.set entry.1 entry.2)
        earlier =
      earlier ++ entries := by
  induction entries generalizing earlier with
  | nil => simp
  | cons entry entries ih =>
      have hNew : entry.1 ∉ earlier.names := by
        intro hMem
        exact (List.nodup_append.mp hNames).2.2 entry.1 hMem entry.1
          (by simp [names]) rfl
      rw [List.foldl_cons, set_of_not_mem hNew, ih]
      · simp
      · simpa [names] using hNames

/- Entries with distinct names stay as they are. -/
theorem ofList_of_nodup
    {entries : Fields α}
    (hNames : (entries.map Prod.fst).Nodup) :
    ofList entries = entries :=
  foldl_set_of_nodup hNames

/- Only entries of the list are set. -/
theorem mem_of_mem_ofList
    {entries : Fields α} :
    ∀ entry ∈ ofList entries, entry ∈ entries :=
  List.foldlRecOn
    (motive := fun fields => ∀ entry ∈ fields, entry ∈ entries)
    entries _ nofun fun _ hFields _ hEntry =>
      forall_mem_set (fun name value => (name, value) ∈ entries)
        hFields hEntry

end Fields

------------------------------------------------------------
-- Tokens Of Nodes
------------------------------------------------------------

mutual

/- Tokens are entries one after the other, with silent tokens among them. -/
inductive Row (strict : Bool) : List Token → List Entry → Prop where
  | nil : Row strict [] []
  | silent
      {token : Token}
      {tokens : List Token}
      {entries : List Entry}
      (hSilent : token.IsSilent)
      (hRest : Row strict tokens entries) :
      Row strict (token :: tokens) entries
  | name
      {token : Token}
      {tokens : List Token}
      {entries : List Entry}
      (hName : token.kind = .identifier)
      (hRest : Row strict tokens entries) :
      Row strict (token :: tokens) (.name token.text :: entries)
  | part
      {tokens others : List Token}
      {node : Node Span}
      {entries : List Entry}
      (hNode : Forms strict tokens node)
      (hRest : Row strict others entries) :
      Row strict (tokens ++ others) (.part node :: entries)

/- Tokens form a node, from the first one of it to the last one. -/
inductive Forms (strict : Bool) : List Token → Node Span → Prop where
  | variable
      {token : Token}
      (hName : token.kind = .identifier) :
      Forms strict [token] (.variable token.text token.span)
  | constant
      {token : Token}
      {value : Value}
      (hConstant : token.constant? = some value) :
      Forms strict [token] (.literal value false token.span)
  | embedded
      {sign : Token}
      {tokens : List Token}
      {value : Value}
      (hSign : sign.kind = .at)
      (hValue : Embedded.Denotes strict tokens value) :
      Forms strict (sign :: tokens)
        (.literal value true (.ofTokens (sign :: tokens)))
  | node
      {tokens : List Token}
      {node : Node Span}
      {entries : List Entry}
      (hTokens : tokens ≠ [])
      (hEntries : node.entries? = some entries)
      (hMark : node.mark? = some (.ofTokens tokens))
      (hRow : Row strict tokens entries) :
      Forms strict tokens node
  | repeated
      {tokens : List Token}
      {name : Text}
      {arguments : List (Text × Node Span)}
      (hTokens : tokens ≠ [])
      (hRow :
        Row strict tokens (.name name :: Entry.named arguments))
      (hRepeats :
        RepeatsArgument tokens (Span.ofTokens tokens).last) :
      Forms strict tokens
        (.callNamed name (Fields.ofList arguments)
          (.ofTokens tokens))

end

theorem Forms.ne_nil
    {strict : Bool}
    {tokens : List Token}
    {node : Node Span}
    (hForms : Forms strict tokens node) :
    tokens ≠ [] := by
  cases hForms with
  | «variable» | constant | embedded => exact List.cons_ne_nil _ _
  | node hTokens | repeated hTokens => exact hTokens

/- The span of a node is that of its tokens. -/
theorem Forms.mark?_eq
    {strict : Bool}
    {tokens : List Token}
    {node : Node Span}
    (hForms : Forms strict tokens node) :
    node.mark? = some (.ofTokens tokens) := by
  cases hForms with
  | «variable» | constant | embedded | repeated => rfl
  | node _ _ hMark => exact hMark

theorem Forms.span_eq
    {strict : Bool}
    {tokens : List Token}
    {node : Node Span}
    (hForms : Forms strict tokens node) :
    node.span = .ofTokens tokens := by
  rw [Node.span, hForms.mark?_eq, Option.getD_some]

namespace Row

variable {strict : Bool}
variable {tokens others : List Token}
variable {entries more : List Entry}

theorem of_silent
    (hSilent : ∀ token ∈ tokens, token.IsSilent)
    (hRest : Row strict others entries) :
    Row strict (tokens ++ others) entries := by
  induction tokens with
  | nil => exact hRest
  | cons token tokens ih =>
      rw [List.forall_mem_cons] at hSilent
      exact .silent hSilent.1 (ih hSilent.2)

theorem append :
    ∀ {tokens : List Token} {entries : List Entry},
      Row strict tokens entries →
      Row strict others more →
      Row strict (tokens ++ others) (entries ++ more)
  | _, _, .nil, hOthers => hOthers
  | _, _, .silent hSilent hRest, hOthers =>
    .silent hSilent (hRest.append hOthers)
  | _, _, .name hName hRest, hOthers =>
    .name hName (hRest.append hOthers)
  | _, _, .part hNode hRest, hOthers => by
    rw [List.append_assoc]
    exact .part hNode (hRest.append hOthers)

/- A node may stand alone. -/
theorem single
    {node : Node Span}
    (hNode : Forms strict tokens node) :
    Row strict tokens [.part node] := by
  rw [← List.append_nil tokens]
  exact .part hNode .nil

/- Silent tokens may stand between entries. -/
theorem between
    {silent : List Token}
    (hTokens : Row strict tokens entries)
    (hSilent : ∀ token ∈ silent, token.IsSilent)
    (hOthers : Row strict others more) :
    Row strict (tokens ++ (silent ++ others)) (entries ++ more) :=
  hTokens.append (.of_silent hSilent hOthers)

/- Silent tokens may stand after entries. -/
theorem concat
    {silent : List Token}
    (hTokens : Row strict tokens entries)
    (hSilent : ∀ token ∈ silent, token.IsSilent) :
    Row strict (tokens ++ silent) entries := by
  have hNone : Row strict (silent ++ []) [] := .of_silent hSilent .nil
  rw [List.append_nil] at hNone
  have hBoth := hTokens.append hNone
  rwa [List.append_nil] at hBoth

/- Where there is no entry all tokens are silent. -/
theorem isSilent :
    ∀ {tokens : List Token},
      Row strict tokens [] → ∀ token ∈ tokens, token.IsSilent
  | _, .nil => by simp
  | _, .silent hSilent hRest =>
    List.forall_mem_cons.mpr ⟨hSilent, hRest.isSilent⟩

/- Around the tokens of a node there are only silent ones. -/
theorem exists_forms
    {node : Node Span} :
    ∀ {tokens : List Token},
      Row strict tokens [.part node] →
      ∃ before inner after,
        tokens = before ++ (inner ++ after) ∧
          (∀ token ∈ before, token.IsSilent) ∧
          (∀ token ∈ after, token.IsSilent) ∧
          Forms strict inner node
  | _, .silent hSilent hRest => by
    rcases hRest.exists_forms with
      ⟨before, inner, after, rfl, hBefore, hAfter, hNode⟩
    exact
      ⟨_ :: before, inner, after, rfl,
        List.forall_mem_cons.mpr ⟨hSilent, hBefore⟩, hAfter, hNode⟩
  | _, .part hNode hRest =>
    ⟨[], _, _, rfl, by simp, hRest.isSilent, hNode⟩

end Row

------------------------------------------------------------
-- Segments
------------------------------------------------------------

/-
  Tokens of a part of a script: they are entries one after the
  other, and match brackets.
-/
structure Segment
    (strict : Bool)
    (tokens : List Token)
    (entries : List Entry) : Prop where
  row : Row strict tokens entries
  balanced : Balanced tokens

/- Tokens are a whole expression or statement. -/
abbrev Encloses
    (strict : Bool)
    (tokens : List Token)
    (node : Node Span) : Prop :=
  Segment strict tokens [.part node]

namespace Segment

variable {strict : Bool}
variable {token opening closing : Token}
variable {tokens others : List Token}
variable {entries more : List Entry}
variable {inner : Node Span}

theorem nil : Segment strict [] [] :=
  ⟨.nil, .nil⟩

theorem append
    (hTokens : Segment strict tokens entries)
    (hOthers : Segment strict others more) :
    Segment strict (tokens ++ others) (entries ++ more) :=
  ⟨hTokens.row.append hOthers.row,
    hTokens.balanced.append hOthers.balanced⟩

theorem sign
    (hKind : token.kind.isSign = true) :
    Segment strict [token] [] := by
  simp only [TokenKind.isSign, Bool.and_eq_true, Bool.not_eq_true']
    at hKind
  exact ⟨.silent (.inl hKind.1) .nil, .plain hKind.2⟩

theorem connective
    (hConnective : token.IsConnective) :
    Segment strict [token] [] :=
  ⟨.silent (.inr hConnective) .nil,
    .plain (by rw [hConnective.1]; rfl)⟩

theorem name
    (hName : token.kind = .identifier) :
    Segment strict [token] [.name token.text] :=
  ⟨.name hName .nil, .plain (by rw [hName]; rfl)⟩

/- Brackets around entries are silent. -/
theorem group
    (hBrackets : opening.kind.closing? = some closing.kind)
    (hTokens : Segment strict tokens entries) :
    Segment strict (opening :: (tokens ++ [closing])) entries := by
  have hKept := TokenKind.not_isKept_of_closing? hBrackets
  refine ⟨.silent (.inl hKept.1) (hTokens.row.concat ?_),
    .group hBrackets hTokens.balanced⟩
  intro token hMem
  exact List.mem_singleton.mp hMem ▸ .inl hKept.2

/- Tokens that form a node and match brackets are an entry. -/
theorem of_forms
    (hNode : Forms strict tokens inner)
    (hBalanced : Balanced tokens) :
    Segment strict tokens [.part inner] :=
  ⟨.single hNode, hBalanced⟩

/- Entries are put together into a node from the first to the last token. -/
theorem node
    {whole : Node Span}
    (hTokens : Segment strict tokens entries)
    (hSome : tokens ≠ [])
    (hEntries : whole.entries? = some entries)
    (hMark : whole.mark? = some (.ofTokens tokens)) :
    Segment strict tokens [.part whole] :=
  of_forms (.node hSome hEntries hMark hTokens.row)
    hTokens.balanced

theorem ne_nil
    (hNode : Segment strict tokens [.part inner]) :
    tokens ≠ [] := by
  rcases hNode.row.exists_forms with
    ⟨before, core, after, rfl, -, -, hForms⟩
  simp [hForms.ne_nil]

end Segment

/- The operands of a node that takes more of them are its entries. -/
theorem Forms.row_operands
    {strict : Bool}
    {tokens : List Token}
    {op : VariadicOp}
    {operands : List (Node Span)}
    {span : Span}
    (hForms : Forms strict tokens (.variadic op operands span)) :
    Row strict tokens (operands.map .part) := by
  cases hForms with
  | node _ hEntries _ hRow =>
      cases hEntries
      exact hRow

/- What a sign between operands makes of them is formed from both. -/
theorem Forms.combine
    {strict : Bool}
    {tokens others between : List Token}
    {chain : Chain}
    {right : Node Span}
    (kind : TokenKind)
    (hLeft : Forms strict tokens chain.node)
    (hSilent : ∀ token ∈ between, token.IsSilent)
    (hRight : Forms strict others right) :
    Forms strict (tokens ++ (between ++ others))
      (chain.combine kind right).node := by
  have hTokens : tokens ++ (between ++ others) ≠ [] := by
    simp [hLeft.ne_nil]
  have hSpan :
      chain.node.span.through right.span =
        .ofTokens (tokens ++ (between ++ others)) := by
    rw [hLeft.span_eq, hRight.span_eq]
    exact Span.through_ofTokens between hLeft.ne_nil hRight.ne_nil
  have hBoth :
      ∀ {operand : Node Span}, Forms strict others operand →
        Row strict (tokens ++ (between ++ others))
          [.part chain.node, .part operand] :=
    fun hOperand =>
      (Row.single hLeft).between hSilent (.single hOperand)
  unfold Chain.combine
  simp only [hSpan]
  split
  · rename_i op hOp
    generalize hOperand :
      (if kind = .minus then
        Node.unary .negate right right.span else right) = operand
    have hForms : Forms strict others operand := by
      rw [← hOperand]
      split
      · exact .node hRight.ne_nil rfl (congrArg some hRight.span_eq)
          (.single hRight)
      · exact hRight
    have hApart :
        Forms strict (tokens ++ (between ++ others))
          (.variadic op [chain.node, operand]
            (.ofTokens (tokens ++ (between ++ others)))) :=
      .node hTokens rfl rfl (hBoth hForms)
    unfold Chain.extend
    split
    · rename_i inner operands span hNode
      split
      · have hFirst : Row strict tokens (operands.map .part) := by
          rw [hNode] at hLeft
          exact hLeft.row_operands
        refine .node hTokens rfl rfl ?_
        rw [List.map_append]
        exact hFirst.between hSilent (.single hForms)
      · exact hApart
    · exact hApart
  · split
    · exact .node hTokens rfl rfl (hBoth hRight)
    · exact .node hTokens rfl rfl
        (.single (.node hTokens rfl rfl (hBoth hRight)))

namespace Segment

variable {strict : Bool}
variable {tokens others : List Token}

/- An operand, a sign and another operand are what the sign makes of them. -/
theorem combine
    {sign : Token}
    {chain : Chain}
    {right : Node Span}
    (hLeft : Segment strict tokens [.part chain.node])
    (hKind : sign.kind.isSign = true)
    (hRight : Segment strict others [.part right]) :
    Segment strict (tokens ++ [sign] ++ others)
      [.part (chain.combine sign.kind right).node] := by
  have hSign : Segment strict [sign] [] := .sign hKind
  have hBalanced :=
    (hLeft.balanced.append hSign.balanced).append hRight.balanced
  rcases hLeft.row.exists_forms with
    ⟨front, inner, middle, rfl, hFront, hMiddle, hNode⟩
  rcases hRight.row.exists_forms with
    ⟨between, rest, back, rfl, hBetween, hBack, hOther⟩
  have hSilent :
      ∀ token ∈ middle ++ ([sign] ++ between), token.IsSilent :=
    List.forall_mem_append.mpr
      ⟨hMiddle, List.forall_mem_append.mpr
        ⟨hSign.row.isSilent, hBetween⟩⟩
  have hForms := hNode.combine sign.kind hSilent hOther
  have hRow :=
    Row.of_silent hFront ((Row.single hForms).concat hBack)
  refine ⟨?_, hBalanced⟩
  simpa only [List.append_assoc] using hRow

/- Around the name of a variable there are only silent tokens. -/
theorem exists_name
    {name : Text}
    {span : Span}
    (hBase : Segment strict tokens [.part (.variable name span)]) :
    ∃ before token after,
      tokens = before ++ token :: after ∧
        (∀ token ∈ before, token.IsSilent) ∧
        (∀ token ∈ after, token.IsSilent) ∧
        token.kind = .identifier ∧
        token.text = name ∧ token.span = span := by
  rcases hBase.row.exists_forms with
    ⟨before, core, after, rfl, hBefore, hAfter, hForms⟩
  cases hForms with
  | «variable» hName =>
      exact
        ⟨before, _, after, rfl, hBefore, hAfter, hName, rfl, rfl⟩
  | node _ hEntries => cases hEntries

/-
  A name with arguments between parentheses after it is what
  is formed from the tokens from the name to the last one.
-/
theorem called
    {opening closing : Token}
    {name : Text}
    {span : Span}
    {entries : List Entry}
    {whole : Node Span}
    (hBase : Segment strict tokens [.part (.variable name span)])
    (hOpening : opening.kind = .leftParen)
    (hArguments : Segment strict others entries)
    (hClosing : closing.kind = .rightParen)
    (hWhole :
      ∀ core, core ≠ [] →
        Span.ofTokens core = span.through closing.span →
        opening :: (others ++ [closing]) <:+ core →
        Row strict core (.name name :: entries) →
        Forms strict core whole) :
    Segment strict (tokens ++ opening :: (others ++ [closing]))
      [.part whole] := by
  have hGroup :
      Segment strict (opening :: (others ++ [closing])) entries :=
    hArguments.group (by rw [hOpening, hClosing]; rfl)
  refine ⟨?_, hBase.balanced.append hGroup.balanced⟩
  rcases hBase.exists_name with
    ⟨before, token, after, rfl, hBefore, hAfter, hName, rfl, rfl⟩
  have hSpan :
      Span.ofTokens
          (token :: (after ++ opening :: (others ++ [closing]))) =
        token.span.through closing.span := by
    have hConcat :=
      Span.ofTokens_concat token closing (after ++ opening :: others)
    rwa [List.append_assoc] at hConcat
  have hForms :=
    hWhole _ (List.cons_ne_nil _ _) hSpan ⟨token :: after, rfl⟩
      (.name hName (.of_silent hAfter hGroup.row))
  have hRow := Row.of_silent hBefore (Row.single hForms)
  rwa [← List.cons_append, ← List.append_assoc] at hRow

theorem call
    {opening closing : Token}
    {name : Text}
    {span : Span}
    {arguments : List (Node Span)}
    (hBase : Segment strict tokens [.part (.variable name span)])
    (hOpening : opening.kind = .leftParen)
    (hArguments : Segment strict others (arguments.map .part))
    (hClosing : closing.kind = .rightParen) :
    Segment strict (tokens ++ opening :: (others ++ [closing]))
      [.part
        (.call name arguments (span.through closing.span))] := by
  refine hBase.called hOpening hArguments hClosing ?_
  intro core hSome hSpan _ hRow
  exact .node hSome rfl (congrArg some hSpan.symm) hRow

/- Named arguments keep their order, or two of them have one name. -/
theorem callNamed
    {opening closing : Token}
    {name : Text}
    {span : Span}
    {arguments : List (Text × Node Span)}
    (hBase : Segment strict tokens [.part (.variable name span)])
    (hOpening : opening.kind = .leftParen)
    (hArguments : Segment strict others (Entry.named arguments))
    (hNames :
      arguments = [] ∨
        NamesArguments others (arguments.map Prod.fst))
    (hClosing : closing.kind = .rightParen) :
    Segment strict (tokens ++ opening :: (others ++ [closing]))
      [.part
        (.callNamed name (Fields.ofList arguments)
          (span.through closing.span))] := by
  refine hBase.called hOpening hArguments hClosing ?_
  intro core hSome hSpan hCore hRow
  rw [← hSpan]
  by_cases hDistinct : (arguments.map Prod.fst).Nodup
  · rw [Fields.ofList_of_nodup hDistinct]
    exact .node hSome rfl rfl hRow
  · refine .repeated hSome hRow ?_
    rcases hNames with rfl | hNames
    · exact absurd List.nodup_nil hDistinct
    refine RepeatsArgument.of_infix ?_ hCore.isInfix
    exact
      ⟨[], opening, others, closing, [], _, rfl, hOpening, hClosing,
        by rw [hSpan]; rfl, hNames, hDistinct⟩

/- An index stands between brackets after what it is taken of. -/
theorem index
    {opening closing : Token}
    {base position : Node Span}
    (hBase : Segment strict tokens [.part base])
    (hOpening : opening.kind = .leftBracket)
    (hPosition : Segment strict others [.part position])
    (hClosing : closing.kind = .rightBracket) :
    Segment strict (tokens ++ opening :: (others ++ [closing]))
      [.part
        (.index base position
          (base.span.through closing.span))] := by
  have hGroup :
      Segment strict (opening :: (others ++ [closing]))
        [.part position] :=
    hPosition.group (by rw [hOpening, hClosing]; rfl)
  refine ⟨?_, hBase.balanced.append hGroup.balanced⟩
  rcases hBase.row.exists_forms with
    ⟨before, core, after, rfl, hBefore, hAfter, hForms⟩
  have hSpan :
      base.span.through closing.span =
        .ofTokens (core ++ (after ++ opening :: (others ++ [closing]))) := by
    have hWhole :=
      Span.through_ofTokens (after ++ opening :: others)
        hForms.ne_nil (List.cons_ne_nil closing [])
    rw [List.append_assoc] at hWhole
    rw [hForms.span_eq]
    exact hWhole
  have hWhole :
      Forms strict (core ++ (after ++ opening :: (others ++ [closing])))
        (.index base position (base.span.through closing.span)) :=
    .node (by simp) rfl (congrArg some hSpan)
      ((Row.single hForms).between hAfter hGroup.row)
  have hRow := Row.of_silent hBefore (Row.single hWhole)
  simpa only [List.append_assoc] using hRow

end Segment

------------------------------------------------------------
-- Statements In A Row
------------------------------------------------------------

/- Tokens are statements one after the other, each good by itself. -/
inductive Pieces
    (good : List Token → Node Span → Prop) :
    List Token → List (Node Span) → Prop where
  | nil : Pieces good [] []
  | cons
      {tokens semicolons rest : List Token}
      {node : Node Span}
      {nodes : List (Node Span)}
      (hNode : good tokens node)
      (hSemicolons :
        ∀ token ∈ semicolons, token.kind = .semicolon)
      (hRest : Pieces good rest nodes) :
      Pieces good (tokens ++ (semicolons ++ rest)) (node :: nodes)

theorem Pieces.mono
    {good better : List Token → Node Span → Prop}
    {tokens : List Token}
    {nodes : List (Node Span)}
    (hPieces : Pieces good tokens nodes)
    (hBetter : ∀ run node, good run node → better run node) :
    Pieces better tokens nodes := by
  induction hPieces with
  | nil => exact .nil
  | cons hNode hSemicolons _ ih =>
      exact .cons (hBetter _ _ hNode) hSemicolons ih

/- Each statement has its run of the tokens. -/
theorem Pieces.exists_infix
    {good : List Token → Node Span → Prop}
    {tokens : List Token}
    {nodes : List (Node Span)}
    {node : Node Span}
    (hPieces : Pieces good tokens nodes)
    (hMem : node ∈ nodes) :
    ∃ run, run <:+: tokens ∧ good run node := by
  induction hPieces with
  | nil => cases hMem
  | cons hNode _ _ ih =>
      rcases List.mem_cons.mp hMem with rfl | hLater
      · exact ⟨_, (List.prefix_append _ _).isInfix, hNode⟩
      · rcases ih hLater with ⟨run, hRun, hGood⟩
        refine ⟨run, hRun.trans ?_, hGood⟩
        exact
          (List.suffix_append _ _).isInfix.trans
            (List.suffix_append _ _).isInfix

/- Statements one after the other are entries. -/
theorem Pieces.segment
    {strict : Bool}
    {tokens : List Token}
    {nodes : List (Node Span)}
    (hPieces : Pieces (Encloses strict) tokens nodes) :
    Segment strict tokens (nodes.map .part) := by
  induction hPieces with
  | nil => exact .nil
  | @cons _ semicolons _ _ _ hNode hSemicolons _ ih =>
      have hSilent : Segment strict semicolons [] := by
        clear ih
        induction semicolons with
        | nil => exact .nil
        | cons semicolon semicolons ih =>
            rw [List.forall_mem_cons] at hSemicolons
            have hSign : Segment strict [semicolon] [] :=
              .sign (by rw [hSemicolons.1]; rfl)
            exact hSign.append (ih hSemicolons.2)
      exact hNode.append (hSilent.append ih)

end ExperimentScript
