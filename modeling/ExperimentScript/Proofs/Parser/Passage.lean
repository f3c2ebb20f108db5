import ExperimentScript.Proofs.Parser.Phrase

/-
  Passages: tokens that are read as a list of parts.

  Statements, items, arguments, cases and the steps of an
  if-chain are lists that are read part by part. Each kind of
  passage says that its tokens are read as given parts by
  whatever fuel exceeds their number, and grows by one part
  at its front. Passages between brackets are phrases.

  Key definitions include:
    * `ExperimentScript.Starts`
    * `ExperimentScript.Separated`
    * `ExperimentScript.Arguments`
    * `ExperimentScript.Statements`
    * `ExperimentScript.Cases`
    * `ExperimentScript.Steps`

  Main declarations:
    * `ExperimentScript.Phrase.array`
    * `ExperimentScript.Phrase.callWith`
    * `ExperimentScript.Phrase.callNamed`
    * `ExperimentScript.Phrase.block`
    * `ExperimentScript.Phrase.switch`
    * `ExperimentScript.Phrase.ifChain`
-/

namespace ExperimentScript

open Parse Production

variable {strict : Bool}
variable {level : Nat}
variable {open? : Option VariadicOp}
variable {symbols others : List Symbol}
variable {node : Node Unit}

------------------------------------------------------------
-- First Tokens
------------------------------------------------------------

/- Whether a kind comes after a name that something is given to. -/
def TokenKind.afterName : TokenKind → Bool
  | .assign | .arrowAssign | .colon => true
  | _ => false

/-
  Tokens begin like an expression: with one that begins an
  operand, and if it is a name, with none after it that gives
  something to the name.
-/
structure Starts (symbols : List Symbol) : Prop where
  operand :
    ∃ first more, symbols = first :: more ∧
      first.kind.startsOperand = true
  unassigned :
    ∀ first second more, symbols = first :: second :: more →
      first.kind = .identifier → second.kind.afterName = false

namespace Starts

/- The first two tokens, where another one comes after all. -/
theorem exists_two
    {next : Symbol}
    (hStarts : Starts symbols)
    (hNext : next.kind.afterName = false)
    (rest : List Symbol) :
    ∃ first second more,
      symbols ++ next :: rest = first :: second :: more ∧
        first.kind.startsOperand = true ∧
        (first.kind = .identifier →
          second.kind.afterName = false) := by
  rcases hStarts.operand with ⟨first, more, rfl, hFirst⟩
  cases more with
  | nil => exact ⟨first, next, rest, rfl, hFirst, fun _ => hNext⟩
  | cons second more =>
      exact
        ⟨first, second, more ++ next :: rest, rfl, hFirst,
          hStarts.unassigned first second more rfl⟩

/- A kind that begins no operand is not found where one begins. -/
theorem check
    {kind : TokenKind}
    {more : List Symbol}
    {done : Bool → List Symbol → Prop}
    (hStarts : Starts symbols)
    (hKind : kind.startsOperand = false)
    (hDone : done false (symbols ++ more)) :
    (Parse.check kind).At (symbols ++ more) done := by
  rcases hStarts.operand with ⟨first, tail, rfl, hFirst⟩
  have hOther : first.kind ≠ kind := by
    rintro rfl
    rw [hFirst] at hKind
    cases hKind
  apply At.check
  rw [decide_eq_false hOther]
  exact hDone

theorem accept
    {kind : TokenKind}
    {more : List Symbol}
    {done : Bool → List Symbol → Prop}
    (hStarts : Starts symbols)
    (hKind : kind.startsOperand = false)
    (hDone : done false (symbols ++ more)) :
    (Parse.accept kind).At (symbols ++ more) done := by
  apply At.bind
  apply hStarts.check hKind
  exact At.pure hDone

end Starts

------------------------------------------------------------
-- Lists Of Expressions
------------------------------------------------------------

/- The kinds that close a list of expressions. -/
def TokenKind.closesList : TokenKind → Bool
  | .rightParen | .rightBracket => true
  | _ => false

theorem TokenKind.follows_of_closesList
    {kind : TokenKind}
    (hCloses : kind.closesList = true) :
    kind.follows 0 = true ∧ kind ≠ .comma := by
  cases kind <;> first
    | exact ⟨rfl, by decide⟩
    | cases hCloses

/- Tokens are read as expressions with commas between them. -/
def Separated
    (strict : Bool)
    (symbols : List Symbol)
    (nodes : List (Node Unit)) : Prop :=
  ∀ depth fuel, symbols.length < fuel →
    (commaSeparated (expression strict depth) fuel).Reads symbols
      TokenKind.closesList
      fun trees => trees.map Node.unmark = nodes

namespace Separated

theorem single
    (hPhrase : Phrase strict level open? symbols node) :
    Separated strict symbols [node] := by
  intro depth fuel hFuel next rest hNext
  obtain ⟨fuel, rfl⟩ : ∃ less, fuel = less + 1 :=
    Nat.exists_eq_succ_of_ne_zero (by omega)
  rcases TokenKind.follows_of_closesList hNext with
    ⟨hFollows, hComma⟩
  apply At.bind
  apply At.of_reads (hPhrase.reads_body depth) hFollows
  intro tree hTree
  apply At.bind
  apply At.accept_other hComma
  exact At.pure ⟨by simp [hTree], rfl⟩

theorem cons
    {nodes : List (Node Unit)}
    (hPhrase : Phrase strict level open? symbols node)
    (hMore : Separated strict others nodes) :
    Separated strict (symbols ++ .fixed .comma :: others)
      (node :: nodes) := by
  intro depth fuel hFuel next rest hNext
  simp only [List.length_append, List.length_cons] at hFuel
  obtain ⟨fuel, rfl⟩ : ∃ less, fuel = less + 1 :=
    Nat.exists_eq_succ_of_ne_zero (by omega)
  rw [List.append_assoc, List.cons_append]
  apply At.bind
  apply At.of_reads (hPhrase.reads_body depth) rfl
  intro tree hTree
  apply At.bind
  apply At.accept (Symbol.kind_fixed _) (by simp)
  apply At.bind
  apply At.of_reads (hMore depth fuel (by omega)) hNext
  intro trees hTrees
  exact At.pure ⟨by simp [hTree, hTrees], rfl⟩

end Separated

namespace Phrase

/- Expressions between brackets. -/
theorem array
    {nodes : List (Node Unit)}
    (hStarts : Starts symbols)
    (hItems : Separated strict symbols nodes) :
    Phrase strict 9 none
      (.fixed .leftBracket :: (symbols ++ [.fixed .rightBracket]))
      (.array nodes ()) := by
  refine of_production (fun _ => rfl) ?_
  intro depth next rest _
  simp only [List.cons_append, List.append_assoc,
    List.nil_append]
  apply At.bind
  apply At.advance (by simp)
  intro opening _
  apply At.bind
  apply hStarts.check rfl
  simp only [Bool.false_eq_true, if_false]
  apply At.bind_fuel (hItems depth) rfl
  intro trees hTrees
  apply At.bind
  apply At.expect (Symbol.kind_fixed _) (List.cons_ne_nil _ _)
  intro closing _
  apply At.spanned
  intro span
  exact
    ⟨by rw [Node.unmark, Node.unmarkAll_eq_map, hTrees], rfl⟩

/- Brackets with nothing between them. -/
theorem array_nil :
    Phrase strict 9 none
      [.fixed .leftBracket, .fixed .rightBracket]
      (.array [] ()) := by
  refine of_production (fun _ => rfl) ?_
  intro depth next rest _
  apply At.bind
  apply At.advance (by simp)
  intro opening _
  apply At.bind
  apply At.check
  simp only [Symbol.kind_fixed, decide_true, if_true]
  apply At.bind
  apply At.pure
  apply At.bind
  apply At.expect (Symbol.kind_fixed _) (by simp)
  intro closing _
  apply At.spanned
  intro span
  exact ⟨rfl, rfl⟩

end Phrase

------------------------------------------------------------
-- Calls
------------------------------------------------------------

/- Named arguments do not begin where an expression does. -/
theorem Starts.namedArgumentAhead
    {next : Symbol}
    {rest : List Symbol}
    {done : Bool → List Symbol → Prop}
    (hStarts : Starts symbols)
    (hNext : next.kind.afterName = false)
    (hDone : done false (symbols ++ next :: rest)) :
    Production.namedArgumentAhead.At (symbols ++ next :: rest)
      done := by
  rcases hStarts.exists_two hNext rest with
    ⟨first, second, more, hTwo, _, hUnassigned⟩
  rw [hTwo] at hDone ⊢
  apply At.bind
  apply At.followingKind
  apply At.bind
  apply At.current
  intro token hToken
  have hFirst : token.kind = first.kind :=
    congrArg Symbol.kind hToken
  have hFalse :
      (decide (token.kind = .identifier) &&
        (decide (second.kind = .colon) ||
          decide (second.kind = .assign))) = false := by
    rw [hFirst]
    by_cases hName : first.kind = .identifier
    · have hSecond := hUnassigned hName
      cases hKind : second.kind <;>
        simp_all [TokenKind.afterName]
    · simp [hName]
  rw [hFalse]
  exact At.pure hDone

namespace Phrase

/- A name with arguments by position. -/
theorem callWith
    {nodes : List (Node Unit)}
    (name : Text)
    (hStarts : Starts symbols)
    (hArguments : Separated strict symbols nodes) :
    Phrase strict 8 none
      (.name name :: .fixed .leftParen ::
        (symbols ++ [.fixed .rightParen]))
      (.call name nodes ()) := by
  refine call ?_ ⟨_, rfl⟩
  intro depth start next rest _
  simp only [List.cons_append, List.append_assoc,
    List.nil_append]
  apply At.bind
  apply At.advance (by simp)
  intro opening _
  apply At.bind
  apply hStarts.accept rfl
  simp only [Bool.false_eq_true, if_false]
  apply At.bind
  apply hStarts.namedArgumentAhead rfl
  simp only [Bool.false_eq_true, if_false]
  apply At.bind_fuel (hArguments depth) rfl
  intro trees hTrees
  apply At.bind
  apply At.expect (Symbol.kind_fixed _) (List.cons_ne_nil _ _)
  intro closing _
  apply At.spanned
  intro span
  exact
    ⟨by rw [Node.unmark, Node.unmarkAll_eq_map, hTrees], rfl⟩

/- A name with no arguments. -/
theorem callNamed_nil (name : Text) :
    Phrase strict 8 none
      [.name name, .fixed .leftParen, .fixed .rightParen]
      (.callNamed name [] ()) := by
  refine call ?_ ⟨_, rfl⟩
  intro depth start next rest _
  apply At.bind
  apply At.advance (by simp)
  intro opening _
  apply At.bind
  apply At.accept (Symbol.kind_fixed _) (by simp)
  simp only [if_true]
  apply At.spanned
  intro span
  exact ⟨rfl, rfl⟩

end Phrase

------------------------------------------------------------
-- Named Arguments
------------------------------------------------------------

namespace Fields

variable {α : Type}

/- A field with a new name comes last. -/
theorem set_of_not_mem
    {fields : Fields α}
    {name : Text}
    (hNew : name ∉ fields.names)
    (value : α) :
    fields.set name value = fields ++ [(name, value)] := by
  induction fields with
  | nil => rfl
  | cons entry fields ih =>
      rcases entry with ⟨key, old⟩
      simp only [names, List.map_cons, List.mem_cons, not_or]
        at hNew
      have hOther : ¬ key = name := fun hSame =>
        hNew.1 hSame.symm
      rw [set, if_neg hOther, ih hNew.2, List.cons_append]

end Fields

/- Named parts without their marks. -/
def unmarkField (field : Text × Node Span) : Text × Node Unit :=
  (field.1, field.2.unmark)

theorem Node.unmarkArguments_eq_map
    (arguments : List (Text × Node Span)) :
    unmarkArguments arguments = arguments.map unmarkField := by
  induction arguments with
  | nil => rfl
  | cons argument arguments ih =>
      rw [unmarkArguments, ih, List.map_cons]
      rfl

/-
  Tokens are read as named arguments after others, if no name
  occurs twice among them.
-/
def Arguments
    (strict : Bool)
    (symbols : List Symbol)
    (arguments : List (Text × Node Unit)) : Prop :=
  ∀ (before : Fields (Node Span)) depth fuel,
    (before.names ++ Fields.names arguments).Nodup →
    symbols.length < fuel →
    (namedArguments (expression strict depth) fuel before).Reads
      symbols TokenKind.closesList
      fun after =>
        after.map unmarkField = before.map unmarkField ++ arguments

namespace Arguments

variable {name : Text}

/- The name and the value of an argument are read before the next one. -/
theorem at_namedArguments
    {reader : ExpressionReader}
    {fuel : Nat}
    {before : Fields (Node Span)}
    {next : Symbol}
    {rest : List Symbol}
    {done : Fields (Node Span) → List Symbol → Prop}
    (hValue :
      (reader 0).Reads symbols (TokenKind.follows 0)
        fun tree => tree.unmark = node)
    (hNew : name ∉ before.names)
    (hNext : next.kind.follows 0 = true)
    (hDone :
      ∀ tree : Node Span, tree.unmark = node →
        (do
          if ← accept .comma then
            namedArguments reader fuel (before ++ [(name, tree)])
          else
            return before ++ [(name, tree)]).At
          (next :: rest) done) :
    (namedArguments reader (fuel + 1) before).At
      (.name name :: .fixed .assign :: (symbols ++ next :: rest))
      done := by
  apply At.bind
  apply At.expect (Symbol.kind_name _) (by simp)
  intro token hToken
  have hText : token.text = name := congrArg Symbol.text hToken
  apply At.bind
  apply At.check
  simp only [Symbol.kind_fixed, reduceCtorEq, decide_false,
    Bool.not_false, if_true]
  apply At.bind
  apply At.check
  simp only [Symbol.kind_fixed, decide_true, Bool.not_true,
    Bool.false_eq_true, if_false]
  apply At.bind
  apply At.advance (by simp)
  intro sign _
  apply At.bind
  apply At.of_reads hValue hNext
  intro tree hTree
  rw [hText, Fields.set_of_not_mem hNew]
  exact hDone tree hTree

theorem single
    (hPhrase : Phrase strict level open? symbols node) :
    Arguments strict (.name name :: .fixed .assign :: symbols)
      [(name, node)] := by
  intro before depth fuel hNames hFuel next rest hNext
  obtain ⟨fuel, rfl⟩ : ∃ less, fuel = less + 1 :=
    Nat.exists_eq_succ_of_ne_zero (by omega)
  rcases TokenKind.follows_of_closesList hNext with
    ⟨hFollows, hComma⟩
  have hNew : name ∉ before.names := by
    intro hMem
    exact (List.nodup_append.mp hNames).2.2 name hMem name
      (by simp [Fields.names]) rfl
  apply at_namedArguments (hPhrase.reads_body depth) hNew hFollows
  intro tree hTree
  apply At.bind
  apply At.accept_other hComma
  exact At.pure ⟨by simp [unmarkField, hTree], rfl⟩

theorem cons
    {arguments : List (Text × Node Unit)}
    (hPhrase : Phrase strict level open? symbols node)
    (hMore : Arguments strict others arguments) :
    Arguments strict
      (.name name :: .fixed .assign ::
        (symbols ++ .fixed .comma :: others))
      ((name, node) :: arguments) := by
  intro before depth fuel hNames hFuel next rest hNext
  simp only [List.length_append, List.length_cons] at hFuel
  obtain ⟨fuel, rfl⟩ : ∃ less, fuel = less + 1 :=
    Nat.exists_eq_succ_of_ne_zero (by omega)
  have hNew : name ∉ before.names := by
    intro hMem
    exact (List.nodup_append.mp hNames).2.2 name hMem name
      (by simp [Fields.names]) rfl
  simp only [List.cons_append, List.append_assoc]
  apply at_namedArguments (hPhrase.reads_body depth) hNew rfl
  intro tree hTree
  have hAll :
      (Fields.names (before ++ [(name, tree)]) ++
        Fields.names arguments).Nodup := by
    simpa [Fields.names] using hNames
  apply At.bind
  apply At.accept (Symbol.kind_fixed _) (by simp)
  simp only [if_true]
  apply At.of_reads
    (hMore (before ++ [(name, tree)]) depth fuel hAll (by omega))
    hNext
  intro after hAfter
  refine ⟨?_, rfl⟩
  rw [hAfter]
  simp [unmarkField, hTree]

end Arguments

/- A name with named arguments. -/
theorem Phrase.callNamed
    {arguments : List (Text × Node Unit)}
    (name : Text)
    (hFirst :
      ∃ key more,
        symbols = .name key :: .fixed .assign :: more)
    (hNames : (Fields.names arguments).Nodup)
    (hArguments : Arguments strict symbols arguments) :
    Phrase strict 8 none
      (.name name :: .fixed .leftParen ::
        (symbols ++ [.fixed .rightParen]))
      (.callNamed name arguments ()) := by
  rcases hFirst with ⟨key, more, rfl⟩
  refine call ?_ ⟨_, rfl⟩
  intro depth start next rest _
  simp only [List.cons_append, List.append_assoc,
    List.nil_append]
  apply At.bind
  apply At.advance (by simp)
  intro opening _
  apply At.bind
  apply At.accept_other (by simp)
  simp only [Bool.false_eq_true, if_false]
  apply At.bind
  apply At.bind
  apply At.followingKind
  apply At.bind
  apply At.current
  intro token hToken
  have hKind : token.kind = .identifier :=
    congrArg Symbol.kind hToken
  rw [hKind]
  apply At.pure
  simp only [Symbol.kind_fixed, decide_true, Bool.or_true,
    Bool.and_self, if_true]
  apply At.bind_fuel (fun fuel => hArguments [] depth fuel hNames)
    (Eq.refl (TokenKind.closesList .rightParen))
  intro after hAfter
  apply At.bind
  apply At.expect (Symbol.kind_fixed _) (List.cons_ne_nil _ _)
  intro closing _
  apply At.spanned
  intro span
  refine ⟨?_, rfl⟩
  rw [Node.unmark, Node.unmarkArguments_eq_map, hAfter]
  rfl

------------------------------------------------------------
-- Statements
------------------------------------------------------------

/- The kinds that statements go up to. -/
def TokenKind.closesStatements : TokenKind → Bool
  | .rightBrace | .endOfInput => true
  | _ => false

theorem TokenKind.closesStatements_of_startsOperand
    {kind : TokenKind}
    (hOperand : kind.startsOperand = true) :
    kind.closesStatements = false := by
  revert hOperand
  cases kind <;> decide

/- Tokens are read as statements up to the token that closes them. -/
def Statements
    (strict : Bool)
    (symbols : List Symbol)
    (nodes : List (Node Unit)) : Prop :=
  ∀ close depth fuel, TokenKind.closesStatements close = true →
    symbols.length < fuel →
    (statements (expression strict depth) close fuel).Reads symbols
      (fun kind => kind = close)
      fun trees => trees.map Node.unmark = nodes

namespace Statements

variable {nodes : List (Node Unit)}

theorem nil : Statements strict [] [] := by
  intro close depth fuel _ hFuel next rest hNext
  obtain ⟨fuel, rfl⟩ : ∃ less, fuel = less + 1 :=
    Nat.exists_eq_succ_of_ne_zero (by omega)
  apply At.bind
  apply At.check
  have hClose : decide (next.kind = close) = true := hNext
  rw [hClose]
  exact At.pure ⟨rfl, rfl⟩

/- A statement before others ends with a semicolon. -/
theorem cons_of_statement
    (hFirst :
      ∃ first more, symbols = first :: more ∧
        first.kind.closesStatements = false)
    (hStatement :
      ∀ depth,
        (statement (expression strict depth)).Reads symbols
          (fun kind => kind = .semicolon)
          fun tree => tree.unmark = node)
    (hMore : Statements strict others nodes) :
    Statements strict (symbols ++ .fixed .semicolon :: others)
      (node :: nodes) := by
  intro close depth fuel hClose hFuel next rest hNext
  simp only [List.length_append, List.length_cons] at hFuel
  obtain ⟨fuel, rfl⟩ : ∃ less, fuel = less + 1 :=
    Nat.exists_eq_succ_of_ne_zero (by omega)
  rw [List.append_assoc, List.cons_append]
  have hCheck :
      ∀ (more : List Symbol) (done : Bool → List Symbol → Prop),
        done false (symbols ++ more) →
        (check close).At (symbols ++ more) done := by
    intro more done hDone
    rcases hFirst with ⟨first, tail, rfl, hOther⟩
    have hKind : first.kind ≠ close := by
      rintro rfl
      rw [hClose] at hOther
      cases hOther
    apply At.check
    rw [decide_eq_false hKind]
    exact hDone
  apply At.bind
  apply hCheck
  simp only [Bool.false_eq_true, if_false]
  apply At.bind
  apply At.of_reads (hStatement depth) rfl
  intro tree hTree
  apply At.bind
  apply At.accept (Symbol.kind_fixed _) (by simp)
  simp only [if_true]
  apply At.bind
  apply At.of_reads (hMore close depth fuel hClose (by omega)) hNext
  intro trees hTrees
  exact At.pure ⟨by simp [hTree, hTrees], rfl⟩

/- An expression as a statement. -/
theorem cons
    (hStarts : Starts symbols)
    (hPhrase : Phrase strict level open? symbols node)
    (hMore : Statements strict others nodes) :
    Statements strict (symbols ++ .fixed .semicolon :: others)
      (node :: nodes) := by
  refine cons_of_statement ?_ ?_ hMore
  · rcases hStarts.operand with ⟨first, more, hFirst, hOperand⟩
    exact
      ⟨first, more, hFirst,
        TokenKind.closesStatements_of_startsOperand hOperand⟩
  · intro depth next rest hNext
    have hSemicolon : next.kind = .semicolon := by
      simpa using hNext
    have hAfterName : next.kind.afterName = false := by
      rw [hSemicolon]
      rfl
    have hFollows : next.kind.follows 0 = true := by
      rw [hSemicolon]
      rfl
    have hBody := hPhrase.reads_body depth next rest hFollows
    rcases hStarts.exists_two hAfterName rest with
      ⟨first, second, more, hTwo, _, hUnassigned⟩
    rw [hTwo] at hBody ⊢
    apply At.bind
    apply At.current
    intro token hToken
    have hKind : token.kind = first.kind :=
      congrArg Symbol.kind hToken
    apply At.bind
    apply At.followingKind
    have hPlain :
        (decide (token.kind = .identifier) &&
          assigns second.kind) = false := by
      rw [hKind]
      by_cases hName : first.kind = .identifier
      · have hSecond := hUnassigned hName
        cases hOther : second.kind <;>
          simp_all [TokenKind.afterName, assigns]
      · simp [hName]
    simp only [hPlain, Bool.false_eq_true, if_false]
    exact hBody

/- A name that a value is assigned to. -/
theorem cons_assign
    {name : Text}
    (hPhrase : Phrase strict level open? symbols node)
    (hMore : Statements strict others nodes) :
    Statements strict
      (.name name :: .fixed .assign ::
        (symbols ++ .fixed .semicolon :: others))
      (.assign name node () :: nodes) := by
  have hStatement :
      ∀ depth,
        (statement (expression strict depth)).Reads
          (.name name :: .fixed .assign :: symbols)
          (fun kind => kind = .semicolon)
          fun tree => tree.unmark = .assign name node () := by
    intro depth next rest hNext
    have hFollows : next.kind.follows 0 = true := by
      have hSemicolon : next.kind = .semicolon := by
        simpa using hNext
      rw [hSemicolon]
      rfl
    apply At.bind
    apply At.current
    intro token hToken
    have hKind : token.kind = .identifier :=
      congrArg Symbol.kind hToken
    have hText : token.text = name :=
      congrArg Symbol.text hToken
    apply At.bind
    apply At.followingKind
    rw [hKind]
    simp only [Symbol.kind_fixed, decide_true, assigns,
      Bool.true_or, Bool.and_self, if_true]
    apply At.bind
    apply At.advance (by simp)
    intro _ _
    apply At.bind
    apply At.advance (by simp)
    intro _ _
    apply At.bind
    apply At.of_reads (hPhrase.reads_body depth) hFollows
    intro tree hTree
    apply At.spanned
    intro span
    exact ⟨by simp [Node.unmark, hTree, hText], rfl⟩
  exact cons_of_statement ⟨_, _, rfl, rfl⟩ hStatement hMore

end Statements

/- Statements between braces. -/
theorem Phrase.block
    {nodes : List (Node Unit)}
    (hStatements : Statements strict symbols nodes) :
    Phrase strict 9 none
      (.fixed .leftBrace :: (symbols ++ [.fixed .rightBrace]))
      (.sequence nodes ()) := by
  refine of_production (fun _ => rfl) ?_
  intro depth next rest _
  simp only [List.cons_append, List.append_assoc,
    List.nil_append]
  apply At.bind
  apply At.advance (by simp)
  intro opening _
  apply At.bind_fuel
    (fun fuel => hStatements .rightBrace depth fuel rfl)
    (by simp)
  intro trees hTrees
  apply At.bind
  apply At.expect (Symbol.kind_fixed _) (List.cons_ne_nil _ _)
  intro closing _
  apply At.spanned
  intro span
  exact
    ⟨by rw [Node.unmark, Node.unmarkAll_eq_map, hTrees], rfl⟩

------------------------------------------------------------
-- Connectives
------------------------------------------------------------

/- Tokens do not begin with a word that other tokens follow. -/
def Unconnected
    (word : Text)
    (symbols : List Symbol) : Prop :=
  ∀ first second more, symbols = first :: second :: more →
    first.kind = .identifier → first.text ≠ word

/- The word is no connective where it stands alone. -/
theorem Starts.connectiveAhead
    {word : Text}
    {next : Symbol}
    {rest : List Symbol}
    {done : Bool → List Symbol → Prop}
    (hStarts : Starts symbols)
    (hWord : Unconnected word symbols)
    (hNext : next.kind.startsOperand = false)
    (hDone : done false (symbols ++ next :: rest)) :
    (Production.connectiveAhead word).At (symbols ++ next :: rest)
      done := by
  rcases hStarts.operand with ⟨first, more, rfl, _⟩
  apply At.bind
  apply At.current
  intro token hToken
  have hKind : token.kind = first.kind :=
    congrArg Symbol.kind hToken
  have hText : token.text = first.text :=
    congrArg Symbol.text hToken
  apply At.bind
  cases more with
  | nil =>
      apply At.followingKind
      apply At.pure
      rw [hNext, Bool.and_false]
      exact hDone
  | cons second more =>
      apply At.followingKind
      apply At.pure
      have hFalse :
          (decide (token.kind = .identifier) &&
            decide (token.text = word)) = false := by
        rw [hKind, hText]
        by_cases hName : first.kind = .identifier
        · simp [hWord first second more rfl hName]
        · simp [hName]
      rw [hFalse, Bool.false_and]
      exact hDone

------------------------------------------------------------
-- Switches
------------------------------------------------------------

/- Tokens are read as the cases of a switch up to its brace. -/
def Cases
    (strict : Bool)
    (symbols : List Symbol)
    (cases : List (Case Unit)) : Prop :=
  ∀ depth fuel, symbols.length < fuel →
    (Production.cases (expression strict depth) fuel).Reads symbols
      (fun kind => kind = .rightBrace)
      fun trees => Node.unmarkCases trees = cases

namespace Cases

theorem nil : Cases strict [] [] := by
  intro depth fuel hFuel next rest hNext
  obtain ⟨fuel, rfl⟩ : ∃ less, fuel = less + 1 :=
    Nat.exists_eq_succ_of_ne_zero (by omega)
  apply At.bind
  apply At.check
  have hClose : decide (next.kind = .rightBrace) = true := hNext
  rw [hClose]
  exact At.pure ⟨rfl, rfl⟩

theorem cons
    {inner : Nat}
    {innerOpen? : Option VariadicOp}
    {guards : List Symbol}
    {guard : Node Unit}
    {cases : List (Case Unit)}
    (hStarts : Starts guards)
    (hWord : Unconnected "case" guards)
    (hGuard : Phrase strict inner innerOpen? guards guard)
    (hResult : Phrase strict level open? symbols node)
    (hMore : Cases strict others cases) :
    Cases strict
      (guards ++ .fixed .fatArrow ::
        (symbols ++ .fixed .semicolon :: others))
      (.mk guard node :: cases) := by
  intro depth fuel hFuel next rest hNext
  simp only [List.length_append, List.length_cons] at hFuel
  obtain ⟨fuel, rfl⟩ : ∃ less, fuel = less + 1 :=
    Nat.exists_eq_succ_of_ne_zero (by omega)
  simp only [List.cons_append, List.append_assoc]
  apply At.bind
  apply hStarts.check rfl
  simp only [Bool.false_eq_true, if_false]
  apply At.bind
  apply hStarts.connectiveAhead hWord rfl
  simp only [Bool.false_eq_true, if_false]
  apply At.bind
  apply At.of_reads (hGuard.reads_body depth) rfl
  intro guardTree hGuardTree
  apply At.bind
  apply At.check
  simp only [Symbol.kind_fixed, reduceCtorEq, decide_false,
    Bool.not_false, if_true]
  apply At.bind
  apply At.check
  simp only [Symbol.kind_fixed, decide_true, Bool.not_true,
    Bool.false_eq_true, if_false]
  apply At.bind
  apply At.advance (by simp)
  intro arrow _
  apply At.bind
  apply At.of_reads (hResult.reads_body depth) rfl
  intro tree hTree
  apply At.bind
  apply At.accept (Symbol.kind_fixed _) (by simp)
  apply At.bind
  apply At.of_reads (hMore depth fuel (by omega)) hNext
  intro trees hTrees
  exact
    At.pure
      ⟨by rw [Node.unmarkCases, hGuardTree, hTree, hTrees], rfl⟩

end Cases

/- A switch over cases. -/
theorem Phrase.switch
    {cases : List (Case Unit)}
    (hCases : Cases strict symbols cases) :
    Phrase strict 9 none
      (.fixed .switchWord :: .fixed .leftBrace ::
        (symbols ++ [.fixed .rightBrace]))
      (.switch cases ()) := by
  refine of_production (fun _ => rfl) ?_
  intro depth next rest _
  simp only [List.cons_append, List.append_assoc,
    List.nil_append]
  apply At.bind
  apply At.advance (by simp)
  intro word _
  apply At.bind
  apply At.expect (Symbol.kind_fixed _) (by simp)
  intro opening _
  apply At.bind_fuel (hCases depth) (by simp)
  intro trees hTrees
  apply At.bind
  apply At.advance (List.cons_ne_nil _ _)
  intro closing _
  apply At.spanned
  intro span
  exact ⟨by rw [Node.unmark, hTrees], rfl⟩

------------------------------------------------------------
-- If-Chains
------------------------------------------------------------

/- Tokens are read as the steps of an if-chain after its first `if`. -/
def Steps
    (strict : Bool)
    (symbols : List Symbol)
    (steps : List (Branch Unit)) : Prop :=
  ∀ depth fuel, symbols.length < fuel →
    (branches (expression strict depth) fuel).Reads symbols
      (TokenKind.follows 0)
      fun trees => Node.unmarkSteps trees = steps

/-
  Tokens are read as what a guard or an `else` decides on: an
  expression that neither a connective nor another `else`
  would be read with.
-/
structure Consequence
    (strict : Bool)
    (symbols : List Symbol)
    (node : Node Unit) : Prop where
  starts : Starts symbols
  unconnected : Unconnected "then" symbols
  noChain :
    ∀ first more, symbols = first :: more → first.kind ≠ .ifWord
  phrase :
    ∃ level open?, 0 < level ∧
      Phrase strict level open? symbols node

namespace Consequence

/- A consequence is read before an `else` as well. -/
theorem reads
    (hConsequence : Consequence strict symbols node)
    (depth : Nat) :
    (expression strict depth 0).Reads symbols
      (fun kind => kind.follows 0 || kind = .elseWord)
      fun tree => tree.unmark = node := by
  rcases hConsequence.phrase with ⟨level, open?, hLevel, hPhrase⟩
  refine hPhrase.reads (Nat.zero_le _) ?_ depth
  intro kind hKind
  rcases Bool.or_eq_true_iff.mp hKind with hFollows | hElse
  · refine
      ⟨TokenKind.follows_mono (Nat.zero_le _) hFollows,
        Stops.of_follows hFollows (by omega) ?_⟩
    intro found hZero
    omega
  · obtain rfl : kind = .elseWord := of_decide_eq_true hElse
    refine ⟨by simpa [TokenKind.follows] using hLevel, ?_⟩
    intro tree
    refine ⟨by decide, ?_, ?_⟩
    · intro hParen
      cases hParen
    · intro found hFound
      cases hFound

/- No connective stands before a consequence. -/
theorem skipThen
    {next : Symbol}
    {rest : List Symbol}
    {done : Unit → List Symbol → Prop}
    (hConsequence : Consequence strict symbols node)
    (hNext : next.kind.startsOperand = false)
    (hDone : done () (symbols ++ next :: rest)) :
    Production.skipThen.At (symbols ++ next :: rest) done := by
  apply At.bind
  apply hConsequence.starts.check rfl
  simp only [Bool.false_eq_true, if_false]
  apply At.bind
  apply hConsequence.starts.connectiveAhead
    hConsequence.unconnected hNext
  simp only [Bool.false_eq_true, if_false]
  exact At.pure hDone

end Consequence

/- What may come after a consequence begins no operand. -/
theorem TokenKind.startsOperand_of_follows
    {kind : TokenKind}
    (hKind : (kind.follows 0 || kind = .elseWord) = true) :
    kind.startsOperand = false := by
  revert hKind
  cases kind <;> decide

namespace Steps

variable {inner : Nat}
variable {innerOpen? : Option VariadicOp}
variable {guards : List Symbol}
variable {guard : Node Unit}

/- A guard and its consequence are read before what comes next. -/
theorem at_branches
    {depth fuel : Nat}
    {next : Symbol}
    {rest : List Symbol}
    {done : List (Branch Span) → List Symbol → Prop}
    (hGuard : Phrase strict inner innerOpen? guards guard)
    (hConsequence : Consequence strict symbols node)
    (hNext :
      (next.kind.follows 0 || next.kind = .elseWord) = true)
    (hDone :
      ∀ guardTree tree : Node Span,
        guardTree.unmark = guard →
        tree.unmark = node →
        (do
          if ← accept .elseWord then
            if ← accept .ifWord then
              return Branch.test guardTree tree ::
                (← branches (expression strict depth) fuel)
            else
              return [Branch.test guardTree tree,
                .otherwise (← expression strict depth 0)]
          else
            return [Branch.test guardTree tree]).At
          (next :: rest) done) :
    (branches (expression strict depth) (fuel + 1)).At
      (.fixed .leftParen ::
        (guards ++ .fixed .rightParen ::
          (symbols ++ next :: rest)))
      done := by
  apply At.bind
  apply At.expect (Symbol.kind_fixed _) (by simp)
  intro opening _
  apply At.bind
  apply At.of_reads (hGuard.reads_body depth) rfl
  intro guardTree hGuardTree
  apply At.bind
  apply At.expect (Symbol.kind_fixed _) (by simp)
  intro closing _
  apply At.bind
  apply hConsequence.skipThen
    (TokenKind.startsOperand_of_follows hNext)
  apply At.bind
  apply At.of_reads (hConsequence.reads depth) hNext
  intro tree hTree
  exact hDone guardTree tree hGuardTree hTree

/- The last step of an if-chain. -/
theorem single
    (hGuard : Phrase strict inner innerOpen? guards guard)
    (hConsequence : Consequence strict symbols node) :
    Steps strict
      (.fixed .leftParen ::
        (guards ++ .fixed .rightParen :: symbols))
      [.test guard node] := by
  intro depth fuel hFuel next rest hNext
  obtain ⟨fuel, rfl⟩ : ∃ less, fuel = less + 1 :=
    Nat.exists_eq_succ_of_ne_zero (by omega)
  simp only [List.cons_append, List.append_assoc]
  apply at_branches hGuard hConsequence (by simp [hNext])
  intro guardTree tree hGuardTree hTree
  apply At.bind
  have hOther : next.kind ≠ .elseWord := by
    intro hElse
    rw [hElse] at hNext
    cases hNext
  apply At.accept_other hOther
  simp only [Bool.false_eq_true, if_false]
  exact
    At.pure
      ⟨by simp [Node.unmarkSteps, hGuardTree, hTree], rfl⟩

/- The last step with a guard, and what is taken when none holds. -/
theorem otherwise
    {last : Node Unit}
    (hGuard : Phrase strict inner innerOpen? guards guard)
    (hConsequence : Consequence strict symbols node)
    (hLast : Consequence strict others last) :
    Steps strict
      (.fixed .leftParen ::
        (guards ++ .fixed .rightParen ::
          (symbols ++ .fixed .elseWord :: others)))
      [.test guard node, .otherwise last] := by
  intro depth fuel hFuel next rest hNext
  obtain ⟨fuel, rfl⟩ : ∃ less, fuel = less + 1 :=
    Nat.exists_eq_succ_of_ne_zero (by omega)
  simp only [List.cons_append, List.append_assoc]
  apply at_branches hGuard hConsequence rfl
  intro guardTree tree hGuardTree hTree
  apply At.bind
  apply At.accept (Symbol.kind_fixed _) (by simp)
  simp only [if_true]
  apply At.bind
  have hNoChain :
      ∀ done : Bool → List Symbol → Prop,
        done false (others ++ next :: rest) →
        (accept .ifWord).At (others ++ next :: rest) done := by
    intro done hDone
    rcases hLast.starts.operand with ⟨first, more, rfl, _⟩
    exact At.accept_other (hLast.noChain first more rfl) hDone
  apply hNoChain
  simp only [Bool.false_eq_true, if_false]
  apply At.bind
  apply At.of_reads (hLast.reads depth) (by simp [hNext])
  intro lastTree hLastTree
  exact
    At.pure
      ⟨by simp [Node.unmarkSteps, hGuardTree, hTree, hLastTree],
        rfl⟩

/- A step before others. -/
theorem cons
    {steps : List (Branch Unit)}
    (hGuard : Phrase strict inner innerOpen? guards guard)
    (hConsequence : Consequence strict symbols node)
    (hMore : Steps strict others steps) :
    Steps strict
      (.fixed .leftParen ::
        (guards ++ .fixed .rightParen ::
          (symbols ++ .fixed .elseWord :: .fixed .ifWord ::
            others)))
      (.test guard node :: steps) := by
  intro depth fuel hFuel next rest hNext
  simp only [List.length_append, List.length_cons] at hFuel
  obtain ⟨fuel, rfl⟩ : ∃ less, fuel = less + 1 :=
    Nat.exists_eq_succ_of_ne_zero (by omega)
  simp only [List.cons_append, List.append_assoc]
  apply at_branches hGuard hConsequence rfl
  intro guardTree tree hGuardTree hTree
  apply At.bind
  apply At.accept (Symbol.kind_fixed _) (by simp)
  simp only [if_true]
  apply At.bind
  apply At.accept (Symbol.kind_fixed _) (by simp)
  simp only [if_true]
  apply At.bind
  apply At.of_reads (hMore depth fuel (by omega)) hNext
  intro trees hTrees
  exact
    At.pure
      ⟨by simp [Node.unmarkSteps, hGuardTree, hTree, hTrees],
        rfl⟩

end Steps

/- An if-chain. -/
theorem Phrase.ifChain
    {steps : List (Branch Unit)}
    (hSteps : Steps strict symbols steps) :
    Phrase strict 0 none (.fixed .ifWord :: symbols)
      (.cond steps ()) := by
  refine of_production (fun _ => rfl) ?_
  intro depth next rest hNext
  apply At.bind
  apply At.advance (by simp)
  intro word _
  apply At.bind_fuel (hSteps depth) hNext
  intro trees hTrees
  apply At.spanned
  intro span
  exact ⟨by simp [Node.unmark, hTrees], rfl⟩

------------------------------------------------------------
-- Embedded Constants
------------------------------------------------------------

/- A constant after an `@`. -/
theorem Phrase.embedded
    {value : Value}
    (hValue :
      (Embedded.read strict).Reads symbols (fun _ => true)
        fun found => found = value) :
    Phrase strict 9 none (.fixed .at :: symbols)
      (.literal value true ()) := by
  refine of_production (fun _ => rfl) ?_
  intro depth next rest hNext
  apply At.bind
  apply At.advance (by simp)
  intro sign _
  apply At.bind
  apply At.of_reads hValue rfl
  rintro found rfl
  apply At.spanned
  intro span
  exact ⟨rfl, rfl⟩

end ExperimentScript
