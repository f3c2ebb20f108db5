import ExperimentScript.Proofs.Parser.Construed
import ExperimentScript.Proofs.Parser.Relaid
import ExperimentScript.Proofs.Parser.Traced
import ExperimentScript.Proofs.Script.Parts

/-
  A statement that stands alone is read as among others.

  The run that reads a statement among others is compared with
  one that finds the end where the statement has ended. The
  second run cannot be led away from the first, as it takes
  nothing that the first does not take. Both make the same of
  embedded constants, since the tokens of one denote a single
  value.

  Key definitions include:
    * `ExperimentScript.ReadsAlone`

  Main declarations:
    * `ExperimentScript.Node.SameBut.eq`
    * `ExperimentScript.Production.construes_alone`
    * `ExperimentScript.ReadsAlone.assigns`
    * `ExperimentScript.ReadsAlone.exists_parse`
-/

namespace ExperimentScript

------------------------------------------------------------
-- Trees That Do Not Differ
------------------------------------------------------------

namespace AllRelated

variable {α : Type} {related : α → α → Prop}

/- Lists of what is related only to itself are the same. -/
theorem eq
    {items others : List α}
    (hItems : AllRelated related items others)
    (hEq :
      ∀ item ∈ items, ∀ other, related item other → item = other) :
    items = others := by
  induction hItems with
  | nil => rfl
  | cons hFirst _ ih =>
      rw [List.forall_mem_cons] at hEq
      rw [hEq.1 _ hFirst, ih hEq.2]

end AllRelated

theorem Fields.Related.eq
    {α : Type}
    {related : α → α → Prop}
    {fields others : Fields α}
    (hFields : Fields.Related related fields others)
    (hEq :
      ∀ field ∈ fields, ∀ other,
        related field.2 other → field.2 = other) :
    fields = others := by
  induction hFields with
  | nil => rfl
  | @cons name first other _ _ hFirst _ ih =>
      rw [List.forall_mem_cons] at hEq
      have hSame : first = other := hEq.1 _ hFirst
      rw [hSame, ih hEq.2]

namespace Node

variable {differ : Value → Value → Span → Prop}

theorem CasesSameBut.eq
    {cases others : List (Case Span)}
    (hCases : CasesSameBut differ cases others)
    (hEq :
      ∀ node ∈ cases.flatMap Case.parts, ∀ other,
        SameBut differ node other → node = other) :
    cases = others := by
  induction cases generalizing others with
  | nil =>
      cases hCases
      rfl
  | cons entry cases ih =>
      rcases hCases with _ | ⟨hGuard, hResult, hRest⟩
      simp only [List.flatMap_cons, Case.parts_mk,
        List.cons_append, List.nil_append, List.forall_mem_cons]
        at hEq
      rw [hEq.1 _ hGuard, hEq.2.1 _ hResult, ih hRest hEq.2.2]

theorem BranchesSameBut.eq
    {branches others : List (Branch Span)}
    (hBranches : BranchesSameBut differ branches others)
    (hEq :
      ∀ node ∈ branches.flatMap Branch.parts, ∀ other,
        SameBut differ node other → node = other) :
    branches = others := by
  induction branches generalizing others with
  | nil =>
      cases hBranches
      rfl
  | cons branch branches ih =>
      cases hBranches with
      | test hGuard hConsequence hRest =>
          simp only [List.flatMap_cons, Branch.parts_test,
            List.cons_append, List.nil_append, List.forall_mem_cons]
            at hEq
          rw [hEq.1 _ hGuard, hEq.2.1 _ hConsequence,
            ih hRest hEq.2.2]
      | otherwise hConsequence hRest =>
          simp only [List.flatMap_cons, Branch.parts_otherwise,
            List.cons_append, List.nil_append, List.forall_mem_cons]
            at hEq
          rw [hEq.1 _ hConsequence, ih hRest hEq.2]

/- Trees whose embedded constants do not differ are the same. -/
theorem SameBut.eq
    {node other : Node Span}
    (hSame : SameBut differ node other)
    (hDiffer :
      ∀ value other mark, differ value other mark → value = other) :
    node = other := by
  induction node using Node.partsInduction generalizing other with
  | hStep node ih =>
      cases hSame with
      | sequence hNodes | array hNodes | call hNodes
      | variadic hNodes =>
          rw [hNodes.eq fun part hPart _ => ih part hPart]
      | callNamed hFields =>
          rw [hFields.eq fun field hField _ =>
            ih field.2 (List.mem_map_of_mem hField)]
      | assign hValue | «return» hValue | unary hValue =>
          rw [ih _ (List.mem_singleton.mpr rfl) hValue]
      | index hLeft hRight | binary hLeft hRight =>
          rw [ih _ (by simp [parts]) hLeft,
            ih _ (by simp [parts]) hRight]
      | «variable» | literal | fragment => rfl
      | embedded hValue => rw [hDiffer _ _ _ hValue]
      | «switch» hCases =>
          rw [hCases.eq fun part hPart _ => ih part hPart]
      | cond hBranches =>
          rw [hBranches.eq fun part hPart _ => ih part hPart]

end Node

------------------------------------------------------------
-- Constants Of Both Runs
------------------------------------------------------------

/-
  Two runs in one mode that no string leads apart make the same
  of embedded constants.
-/
theorem Pairing.abreast_eq_of_strings
    {pairing : Pairing}
    {strict : Bool}
    (hStrings :
      ∀ (depth : Nat) {place other : Cursor},
        pairing.Twin 0 place other →
          place.current.kind = .string ∨
              other.current.kind = .string →
            pairing.Relates (.inside 0)
              (Value.SameBut fun _ _ => True)
              (Embedded.value strict (depth + 1))
              (Embedded.value strict (depth + 1)) place other) :
    pairing.Abreast strict strict fun value other _ =>
      value = other where
  embedded {place other} hTwin hBefore hKind := by
    refine .advance hTwin (hKind ▸ nofun) fun _ hNext => ?_
    refine .bind hNext (.value hStrings Embedded.maxDepth hNext)
      fun value same after stop hOk hOkOther _ hAfter =>
        .spanned hAfter.of_zero _ (.embedded ?_)
    have hConstrues :=
      Embedded.construes_value strict Embedded.maxDepth
    rcases hConstrues.of_ok hNext.closed hOk with
      ⟨tokens, hTokens, hDenotes⟩
    rcases hConstrues.of_ok hNext.closedOther hOkOther with
      ⟨others, hOthers, hDenotesOther⟩
    rcases hNext.level with ⟨front, hPlace, hOther⟩
    rcases hAfter.level with ⟨between, hEnd, hEndOther⟩
    have hFront : front = tokens ++ between := by
      rw [hTokens.rest, hEnd, ← List.append_assoc] at hPlace
      exact (List.append_cancel_right hPlace).symm
    have hFrontOther : front = others ++ between := by
      rw [hOthers.rest, hEndOther, ← List.append_assoc] at hOther
      exact (List.append_cancel_right hOther).symm
    exact
      (hDenotes.unique hDenotesOther (hFront.symm.trans hFrontOther)).2.1

------------------------------------------------------------
-- Statements
------------------------------------------------------------

section Statements

variable {strict : Bool}
variable {run : List Token}
variable {node : Node Span}
variable {close : Token}

namespace Production

/-
  A statement is read again where what came before it and what
  was looked for there are forgotten.
-/
theorem exists_start
    {cursor after : Cursor}
    (hClosed : cursor.Closed)
    (hOk :
      statement (expression strict maxDepth) cursor =
        .ok node after)
    (kinds : List TokenKind) :
    ∃ stop,
      statement (expression strict maxDepth)
          ((Cursor.start cursor.rest).seeking kinds) =
        .ok node stop ∧
      stop.rest = after.rest := by
  have hLevel :
      cursor.Level
        ((Cursor.start cursor.rest).seeking cursor.sought) :=
    ⟨rfl, rfl, rfl⟩
  have hStart :
      statement (expression strict maxDepth)
          ((Cursor.start cursor.rest).seeking cursor.sought) =
        .ok node after := by
    rcases statement_level hLevel hClosed maxDepth with
      hSame | ⟨error, _, _, hError, -⟩
    · rw [← hSame, hOk]
    · rw [hOk] at hError
      cases hError
  have hAgrees :=
    agrees_statement
      (Layered.agrees_expression strict maxDepth 0
        (Nat.zero_le _)).refl_left
      ((Cursor.start cursor.rest).seeking cursor.sought)
      ((Cursor.start cursor.rest).seeking kinds)
      ⟨rfl, rfl, rfl⟩ hClosed
  rcases hAgrees.exists_ok hStart with ⟨stop, hStop, hAlike⟩
  exact ⟨stop, hStop, hAlike.rest.symm⟩

/-
  A statement is read again where the end follows it, as it
  takes the same tokens and makes the same of them.
-/
theorem exists_end
    {found : Token}
    {back : List Token}
    {after : Cursor}
    (hTokens : AreClosed (run ++ found :: back))
    (hRun : run ≠ [])
    (hClose : close.kind = .endOfInput)
    (hOk :
      statement (expression strict maxDepth)
          ((Cursor.start (run ++ found :: back)).seeking
            [.endOfInput]) =
        .ok node after)
    (hAfter : after.rest = found :: back) :
    ∃ stop,
      statement (expression strict maxDepth)
          ((Cursor.start (run ++ [close])).seeking [.endOfInput]) =
        .ok node stop ∧
      stop.rest = [close] := by
  have hNone : ∀ token ∈ (none : Option Token), False := nofun
  let pairing :=
    Pairing.probe (run ++ found :: back) found back none close hClose
  have hAbreast :
      pairing.Abreast strict strict
        fun value other _ => value = other :=
    Pairing.abreast_eq_of_strings fun depth _ _ hTwin hKind =>
      Pairing.relates_string_probe hClose
        (fun token hMem => (hNone token hMem).elim) depth hTwin hKind
  have hFork :
      (Cursor.start (run ++ found :: back)).rest ≠ found :: back := by
    rw [hTokens.rest_start]
    exact fun hSame => hRun (List.append_left_eq_self.mp hSame)
  have hTwin :
      pairing.Twin 0
        ((Cursor.start (run ++ found :: back)).seeking [.endOfInput])
        ((Cursor.start (run ++ [close])).seeking [.endOfInput]) :=
    (twin_probe hRun hTokens hClose fun token hMem =>
      (hNone token hMem).elim).seeking
        fun hAtFork => absurd hAtFork hFork
  have hRelates :=
    Pairing.Abreast.relates_statement
      (fun power hBound _ _ =>
        hAbreast.relates_expression maxDepth power hBound)
      hTwin
  unfold Pairing.Relates at hRelates
  rw [hOk] at hRelates
  rcases hRelates with
    hPast | hDiverts | ⟨hWhole, -⟩ | ⟨same, stop, hSame, hNode, hStop⟩
  · rw [Pairing.Past, ← Cursor.length_rest, hAfter] at hPast
    exact absurd hPast (Nat.lt_irrefl _)
  · unfold Pairing.Diverts at hDiverts
    split at hDiverts <;> exact absurd rfl hDiverts.1
  · cases hWhole
  · rw [hNode.eq fun _ _ _ => id]
    exact ⟨stop, hSame, hStop.rest_eq hAfter⟩

end Production

/-
  Some tokens before an end are read as a statement that ends
  right there.
-/
def ReadsAlone
    (strict : Bool)
    (run : List Token)
    (node : Node Span) : Prop :=
  ∀ close : Token,
    close.kind = .endOfInput →
      ∃ stop,
        Production.statement (expression strict maxDepth)
            ((Cursor.start (run ++ [close])).seeking
              [.endOfInput]) =
          .ok node stop ∧
        stop.rest = [close]

/- A statement is all that is read from the tokens it takes. -/
theorem Production.construes_alone :
    Parse.Construes (statement (expression strict maxDepth))
      fun run node =>
        Encloses strict run node ∧ ReadsAlone strict run node := by
  intro cursor hClosed
  have hStatement :=
    construes_statement (construes_expression strict maxDepth) cursor
      hClosed
  unfold Parse.ConstruesAt Parse.Ends at hStatement ⊢
  split
  case h_2 => trivial
  rename_i node after hOk
  rw [hOk] at hStatement
  rcases hStatement with ⟨run, hPasses, hNode⟩
  refine ⟨run, hPasses, hNode, fun close hClose => ?_⟩
  have hTokens : AreClosed (run ++ after.current :: after.ahead) := by
    rw [← Cursor.rest, ← hPasses.rest]
    exact hClosed
  rcases exists_start hClosed hOk [.endOfInput] with
    ⟨stop, hStart, hStop⟩
  rw [hPasses.rest] at hStart
  exact exists_end hTokens hNode.ne_nil hClose hStart hStop

namespace ReadsAlone

variable (hRun : run ≠ [])
variable (hKinds : ∀ token ∈ run, token.kind ≠ .endOfInput)

include hKinds

/- An assignment that is read alone is a name and a sign with a value. -/
theorem assigns
    {name : Text}
    {value : Node Span}
    {span : Span}
    (hAlone : ReadsAlone strict run (.assign name value span))
    (hSound : ∀ token ∈ run, token.isSound = true) :
    Production.Assigns strict run (.assign name value span) := by
  have hTokens : AreClosed (run ++ [.endAt .start]) :=
    ⟨run, .endAt .start, rfl, rfl, hKinds⟩
  let cursor :=
    (Cursor.start (run ++ [.endAt .start])).seeking [.endOfInput]
  have hClosed : cursor.Closed := hTokens.closed_start
  have hRest : cursor.rest = run ++ [.endAt .start] :=
    hTokens.rest_start
  rcases hAlone (.endAt .start) rfl with ⟨stop, hOk, hStop⟩
  cases hAhead :
      Production.isAssigned cursor.current cursor.following.kind with
  | true =>
      rcases (Production.construesAt_assignment
          (construes_expression strict maxDepth) hClosed
          hAhead).of_ok hOk with
        ⟨tokens, hPasses, hAssigns⟩
      have hSame := hPasses.rest
      rw [hRest, hStop] at hSame
      rwa [List.append_cancel_right hSame]
  | false =>
      -- An expression is no assignment, whatever its tokens are.
      rw [Production.statement_eq,
        Parse.lookahead_of_not_ahead hAhead] at hOk
      have hShaped :=
        ((yields_expression maxDepth 0).of_ok (List.suffix_refl _)
          hOk).2
      have hAll : cursor.IsSound := by
        intro token hMem
        rw [hRest] at hMem
        rcases List.mem_append.mp hMem with hRun | hClose
        · exact hSound token hRun
        · cases List.mem_singleton.mp hClose
          rfl
      cases hShaped hAll

include hRun

/- What is read alone is a script of one statement. -/
theorem scriptParts_eq
    (hAlone : ReadsAlone strict run node)
    (hClose : close.kind = .endOfInput) :
    scriptParts strict (run ++ [close]) = .ok ([node], close) := by
  rcases hAlone close hClose with ⟨stop, hOk, hStop⟩
  have hCurrent : stop.current = close := (List.cons.inj hStop).1
  have hEnd : stop.current.kind = .endOfInput := by
    rw [hCurrent, hClose]
  have hSemicolon : stop.current.kind ≠ .semicolon := by
    rw [hEnd]
    decide
  have hKind :
      (Cursor.start (run ++ [close])).current.kind ≠ .endOfInput := by
    cases run with
    | nil => exact absurd rfl hRun
    | cons first run => exact hKinds first List.mem_cons_self
  rw [scriptParts, Parse.ending, Cursor.fuel, topStatements_apply,
    if_neg hKind, hOk]
  simp only [if_neg hSemicolon, if_pos hEnd, Cursor.current_seeking]
  rw [hCurrent]

/- Whatever text has these symbols is a script of one statement. -/
theorem exists_parse
    {text : Text}
    {tokens : List Token}
    (hAlone : ReadsAlone strict run node)
    (hTokens : tokenize text = .ok tokens)
    (hSymbols :
      tokens.map Token.symbol =
        run.map Token.symbol ++ [⟨.endOfInput, [], none⟩]) :
    ∃ other mark,
      parse strict text = .ok (.sequence [other] mark) ∧
        other.unmark = node.unmark := by
  let close := Token.endAt .start
  have hSame :
      tokens.map Token.symbol =
        (run ++ [close]).map Token.symbol := by
    rw [hSymbols, List.map_append]
    rfl
  have hParts :=
    scriptParts_of_symbols (tokenize_ne_nil hTokens)
      (List.concat_ne_nil _ _) hSame strict
  rw [hAlone.scriptParts_eq hRun hKinds rfl] at hParts
  cases hRead : scriptParts strict tokens with
  | error error =>
      rw [hRead] at hParts
      exact hParts.elim
  | ok parts =>
      rw [hRead] at hParts
      rcases parts with ⟨nodes, last⟩
      rcases nodes with _ | ⟨other, _ | ⟨second, rest⟩⟩
      · cases hParts
      · refine ⟨other, ⟨.start, last.span.last⟩, ?_, ?_⟩
        · simp only [parse, hTokens, parseTokens_eq, hRead]
        · exact (List.cons.inj hParts).1
      · cases (List.cons.inj hParts).2

end ReadsAlone

end Statements

end ExperimentScript
