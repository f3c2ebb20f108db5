import ExperimentScript.Proofs.Lexer.Spelling
import ExperimentScript.Proofs.Parser.Reading
import ExperimentScript.Proofs.Script.Nesting

/-
  What is written flat can nest.

  Operators of one level that stand in a row are read in a
  loop, in which nothing waits for anything, and each takes
  all that stands before it as its left operand. So a tree can
  nest as deep as its text is long, and no limit for reading
  is hit.

  Key definitions include:
    * `ExperimentScript.comparison`

  Main declarations:
    * `ExperimentScript.Production.ends_operators_compared`
    * `ExperimentScript.exists_parse_comparison`
-/

namespace ExperimentScript

------------------------------------------------------------
-- Comparisons In A Row
------------------------------------------------------------

/- A number of comparisons in a row, all with one name. -/
def comparison : Nat → Text
  | 0 => "x"
  | count + 1 => "x < " ++ comparison count

/- Each sign of a comparison with the name after it. -/
def comparedNames : Nat → List Symbol
  | 0 => []
  | count + 1 => .fixed .less :: .name "x" :: comparedNames count

theorem spells_comparison (count : Nat) :
    Spells (comparison count) (.name "x" :: comparedNames count) := by
  have hName : Spells "x" [.name "x"] := spells_name (by decide)
  induction count with
  | zero => exact hName
  | succ count ih =>
      have hLess : TokenKind.less ∈ Scans.spacedSigns := by decide
      exact hName.spaced hLess ih

theorem length_comparedNames (count : Nat) :
    (comparedNames count).length = 2 * count := by
  induction count with
  | zero => rfl
  | succ count ih =>
      rw [comparedNames, List.length_cons, List.length_cons, ih]
      omega

/- Before the end comes the sign of a comparison or the end itself. -/
theorem exists_cons_comparedNames
    (count : Nat)
    {close : Symbol}
    (hClose : close.kind = .endOfInput) :
    ∃ second more,
      comparedNames count ++ [close] = second :: more ∧
        (second.kind = .less ∨ second.kind = .endOfInput) := by
  cases count with
  | zero => exact ⟨close, [], rfl, .inr hClose⟩
  | succ count => exact ⟨_, _, rfl, .inl rfl⟩

------------------------------------------------------------
-- Reading In A Loop
------------------------------------------------------------

namespace Production

open Parse

variable {strict : Bool}
variable {depth power fuel : Nat}
variable {chain : Chain}
variable {cursor : Cursor}
variable {second : Symbol}
variable {more : List Symbol}

/- Nothing is read where nothing continues what was read. -/
theorem ends_operators_of_stops
    {reader : ExpressionReader}
    (hStops : Stops power chain.node cursor.current.kind) :
    (operators reader power (fuel + 1) chain).Ends cursor
      (fun node after =>
        node = chain.node ∧ after.symbols = cursor.symbols)
      (fun _ => False) := by
  rw [Ends, operators_of_stops hStops]
  exact ⟨rfl, rfl⟩

/- An expression that begins with a name goes on from the name. -/
theorem ends_expression_of_name
    {name : Text}
    {done : Node Span → Cursor → Prop}
    (hCursor : cursor.symbols = .name name :: second :: more)
    (hOperators :
      ∀ span (after : Cursor), after.symbols = second :: more →
        (operators (expression strict depth) power after.fuel
          ⟨.variable name span, none⟩).Ends after done
          (fun _ => False)) :
    (expression strict (depth + 1) power).Ends cursor done
      (fun _ => False) := by
  have hCurrent := Cursor.symbol_current hCursor
  have hKind : cursor.current.kind = .identifier :=
    congrArg Symbol.kind hCurrent
  have hText : cursor.current.text = name :=
    congrArg Symbol.text hCurrent
  have hNext :=
    Cursor.symbols_next hCursor (List.cons_ne_nil _ _)
  rw [expression, ends_bind, operand, ends_bind, ends_current]
  simp only [hKind, hText, ends_bind, ends_advance, ends_pure,
    ends_get]
  exact hOperators _ _ hNext

/- A name before what does not continue it is an expression. -/
theorem ends_expression_name
    {name : Text}
    (hCursor : cursor.symbols = .name name :: second :: more)
    (hStops : ∀ span, Stops power (.variable name span) second.kind) :
    (expression strict (depth + 1) power).Ends cursor
      (fun node after =>
        (∃ span, node = .variable name span) ∧
          after.symbols = second :: more)
      (fun _ => False) := by
  refine ends_expression_of_name hCursor
    fun span after hAfter => ?_
  have hSecond := hStops span
  rw [← Cursor.kind_current hAfter] at hSecond
  refine (ends_operators_of_stops hSecond).mono
    (fun node last hEnds => ?_) (fun _ hNever => hNever)
  exact ⟨⟨span, hEnds.1⟩, hEnds.2.trans hAfter⟩

/- Neither a comparison nor the end continues a name at its level. -/
theorem stops_name
    {kind : TokenKind}
    (hKind : kind = .less ∨ kind = .endOfInput)
    (name : Text)
    (span : Span) :
    Stops 8 (.variable name span) kind := by
  rcases hKind with rfl | rfl
  · refine ⟨nofun, nofun, fun found hFound => ?_⟩
    cases hFound
    decide
  · exact ⟨nofun, nofun, nofun⟩

/-
  Each comparison in a row makes the tree one level deeper,
  without a level of reading.
-/
theorem ends_operators_compared
    (count : Nat)
    {close : Symbol}
    (hClose : close.kind = .endOfInput)
    (hCursor : cursor.symbols = comparedNames count ++ [close])
    (hFuel : count < fuel) :
    (operators (expression strict (depth + 1)) 0 fuel chain).Ends
      cursor
      (fun node after =>
        (∀ weight,
          node.nesting weight = count + chain.node.nesting weight) ∧
          after.symbols = [close])
      (fun _ => False) := by
  -- Every round has another chain, and one round of fuel less.
  induction count generalizing chain cursor fuel with
  | zero =>
      obtain ⟨fuel, rfl⟩ := Nat.exists_eq_succ_of_ne_zero hFuel.ne'
      have hKind : cursor.current.kind = .endOfInput :=
        (Cursor.kind_current hCursor).trans hClose
      have hStops : Stops 0 chain.node cursor.current.kind := by
        rw [hKind]
        exact ⟨nofun, nofun, nofun⟩
      refine (ends_operators_of_stops hStops).mono
        (fun node after hEnds => ?_) (fun _ hNever => hNever)
      rw [hEnds.1]
      exact ⟨fun weight => (Nat.zero_add _).symm,
        hEnds.2.trans hCursor⟩
  | succ count ih =>
      obtain ⟨fuel, rfl⟩ :=
        Nat.exists_eq_succ_of_ne_zero (Nat.ne_zero_of_lt hFuel)
      rcases exists_cons_comparedNames count hClose with
        ⟨second, more, hMore, hSecond⟩
      rw [comparedNames, List.cons_append, List.cons_append, hMore]
        at hCursor
      have hKind : cursor.current.kind = .less :=
        Cursor.kind_current hCursor
      have hLevel : cursor.current.kind.level? = some 4 := by
        rw [hKind]
        rfl
      have hNext :=
        Cursor.symbols_next hCursor (List.cons_ne_nil _ _)
      rw [Ends, operators_of_level hLevel (Nat.zero_le _), ← Ends,
        ends_bind]
      refine
        (ends_expression_name hNext (stops_name hSecond _)).mono
          (fun right after hRight => ?_) (fun _ hNever => hNever)
      rcases hRight with ⟨⟨span, rfl⟩, hAfter⟩
      refine
        (ih (hAfter.trans hMore.symm)
          (Nat.lt_of_succ_lt_succ hFuel)).mono
          (fun node last hNode => ⟨fun weight => ?_, hNode.2⟩)
          (fun _ hNever => hNever)
      have hLeft := Node.nesting_pos weight chain.node
      rw [hNode.1, hKind]
      simp only [Chain.combine, TokenKind.variadic?,
        TokenKind.binary?, Node.nesting]
      omega

/- Comparisons in a row up to the end of a script are a statement. -/
theorem ends_statement_compared
    (count : Nat)
    {close : Symbol}
    (hClose : close.kind = .endOfInput)
    (hCursor :
      cursor.symbols =
        .name "x" :: (comparedNames count ++ [close])) :
    (statement (expression strict (depth + 2))).Ends cursor
      (fun node after =>
        (∀ weight, node.nesting weight = count + 1) ∧
          after.symbols = [close])
      (fun _ => False) := by
  rcases exists_cons_comparedNames count hClose with
    ⟨second, more, hMore, hSecond⟩
  rw [hMore] at hCursor
  have hKind : cursor.current.kind = .identifier :=
    Cursor.kind_current hCursor
  have hFollowing : cursor.following.kind = second.kind :=
    congrArg Symbol.kind (Cursor.symbol_following hCursor)
  have hAssigns : assigns second.kind = false := by
    rcases hSecond with hLess | hEnd
    · rw [hLess]
      rfl
    · rw [hEnd]
      rfl
  simp only [statement, ends_bind, ends_current,
    ends_followingKind, hKind, hFollowing, hAssigns, decide_true,
    Bool.and_false, Bool.false_eq_true, if_false]
  refine ends_expression_of_name hCursor
    fun span after hAfter => ?_
  rw [← hMore] at hAfter
  have hFuel : count < after.fuel := by
    rw [← Cursor.length_symbols, hAfter, List.length_append,
      length_comparedNames, List.length_singleton]
    omega
  refine (ends_operators_compared count hClose hAfter hFuel).mono
    (fun node last hNode => ?_) (fun _ hNever => hNever)
  exact hNode

/- Comparisons in a row up to the end are the only statement. -/
theorem ends_statements_compared
    (count : Nat)
    {close : Symbol}
    (hClose : close.kind = .endOfInput)
    (hCursor :
      cursor.symbols =
        .name "x" :: (comparedNames count ++ [close])) :
    (statements (expression strict (depth + 2)) .endOfInput
        (fuel + 1)).Ends cursor
      (fun nodes _ =>
        ∃ node, nodes = [node] ∧
          ∀ weight, node.nesting weight = count + 1)
      (fun _ => False) := by
  have hKind : cursor.current.kind = .identifier :=
    Cursor.kind_current hCursor
  simp only [statements, ends_bind, ends_check, hKind,
    reduceCtorEq, decide_false, Bool.false_eq_true, if_false]
  have hSought :
      (cursor.seeking [.endOfInput]).symbols =
        .name "x" :: (comparedNames count ++ [close]) := hCursor
  refine (ends_statement_compared count hClose hSought).mono
    (fun node after hNode => ?_) (fun _ hNever => hNever)
  have hEnd : after.current.kind = .endOfInput :=
    (Cursor.kind_current hNode.2).trans hClose
  simp only [ends_accept, hEnd, reduceCtorEq, if_false, ends_bind,
    Bool.false_eq_true, ends_check, Cursor.current_seeking,
    decide_true, if_true, ends_pure]
  exact ⟨node, rfl, hNode.1⟩

end Production

/-
  There are scripts that nest as deep as one likes and are
  read without coming near a limit.
-/
theorem exists_parse_comparison
    (strict : Bool)
    (count : Nat) :
    ∃ tree,
      parse strict (comparison count) = .ok tree ∧
        ∀ weight, tree.nesting weight = count + 2 := by
  have hScans :=
    spells_comparison count false [] (fun hTrue => nomatch hTrue)
      fun c hMem => nomatch hMem
  rw [List.append_nil] at hScans
  rcases hScans.tokenize with ⟨tokens, hTokens, hSymbols⟩
  have hSome : tokens ≠ [] := by
    rintro rfl
    simp at hSymbols
  have hCursor :
      (Cursor.start tokens).symbols =
        .name "x" ::
          (comparedNames count ++ [⟨.endOfInput, [], none⟩]) :=
    (Cursor.symbols_start hSome).trans hSymbols
  have hRead :
      (script strict).Ends (Cursor.start tokens)
        (fun tree _ => ∀ weight, tree.nesting weight = count + 2)
        (fun _ => False) := by
    rw [script, Parse.ends_bind, Parse.ends_get, Parse.ends_bind]
    refine
      (Production.ends_statements_compared count rfl hCursor).mono
        ?_ (fun _ hNever => hNever)
    rintro nodes after ⟨node, rfl, hNode⟩ weight
    simp only [Node.nesting, Node.nestingOf, hNode,
      Nat.max_zero]
  unfold parse parseTokens EStateM.run
  rw [hTokens]
  cases hScript : script strict (Cursor.start tokens) with
  | ok tree after =>
      refine ⟨tree, ?_, hRead.of_ok hScript⟩
      simp only [hScript]
  | error error after =>
      rw [Parse.Ends, hScript] at hRead
      exact hRead.elim

end ExperimentScript
