import ExperimentScript.Editor.Session
import ExperimentScript.Proofs.Lexer.Excerpt
import ExperimentScript.Proofs.Parser.Alone
import ExperimentScript.Proofs.Parser.Nesting

/-
  The symbols of a script are its assignments.

  Positions of an editor are places of a script counted from
  zero, and a range ends before its last position. The range
  of an assignment then covers the text from its name to the
  last token of its value, and no more, so that this text can
  be read by itself.

  Key definitions include:
    * `ExperimentScript.Editor.Position.point`
    * `ExperimentScript.Text.covered`
    * `ExperimentScript.Editor.Symbol.Tells`

  Main declarations:
    * `ExperimentScript.Text.covered_eq`
    * `ExperimentScript.Editor.Symbol.tells_of_alone`
    * `ExperimentScript.Editor.tells_of_parse`
-/

namespace ExperimentScript

------------------------------------------------------------
-- Names
------------------------------------------------------------

/- A name has no blank space in it. -/
theorem Format.isSolid_of_isName
    {name : Text}
    (hName : isName name = true) :
    Lexeme.IsSolid name := by
  cases name with
  | nil => cases hName
  | cons c rest =>
      simp only [isName, Bool.and_eq_true, List.all_eq_true] at hName
      exact List.forall_mem_cons.mpr
        ⟨CodePoint.isBlank_of_isAsciiLetter hName.1.1, fun d hMem =>
          Lexeme.isBlank_of_continuesName (hName.1.2 d hMem)⟩

------------------------------------------------------------
-- Positions
------------------------------------------------------------

/- The place of a script at a position. -/
def Editor.Position.point (position : Position) : Point :=
  ⟨position.line + 1, position.character + 1⟩

/-
  What of a text a range covers, up to where it stops. Lines
  end at line feeds, and characters are code points.
-/
def Text.covered
    (text : Text)
    (range : Editor.Range) :
    Text :=
  select
    (fun point =>
      decide (range.start.point ≤ point ∧ point < range.stop.point))
    .start text

/- A range from the end of a text to that of a longer one covers the rest. -/
theorem Text.covered_eq
    {before middle : Text}
    {range : Editor.Range}
    (hStart : range.start.point = .after before)
    (hStop : range.stop.point = .after (before ++ middle))
    (rest : Text) :
    covered (before ++ (middle ++ rest)) range = middle := by
  apply select_eq
  intro point
  rw [decide_eq_true_iff, hStart, hStop]

namespace Editor.Range

variable {span : Span}
variable {before cut : Text}

theorem point_start_ofSpan
    (hFirst : span.first = .after before) :
    (ofSpan span).start.point = .after before := by
  rw [ofSpan, hFirst]
  rfl

/- The range of a span that ends in no line feed stops after the last place. -/
theorem point_stop_ofSpan
    (hLast : span.last = (Point.after (before ++ cut)).last)
    (hCut : cut ≠ [])
    (hFeed : ∀ c ∈ cut.getLast?, c ≠ '\n') :
    (ofSpan span).stop.point = .after (before ++ cut) := by
  rw [Point.after_eq_last hCut hFeed before, ofSpan, hLast]
  rfl

/- Where one span ends before another, its range stops before the other. -/
theorem point_stop_le_start
    {other : Span}
    (hLine : .start ≤ span.last)
    (hBefore : span.last < other.first) :
    (ofSpan span).stop.point ≤ (ofSpan other).start.point := by
  simp only [ofSpan, Position.point, Point.le_iff, Point.lt_iff,
    Point.start] at *
  omega

end Editor.Range

------------------------------------------------------------
-- Ranges Of Excerpts
------------------------------------------------------------

namespace IsExcerpt

open Editor

variable {text before cut : Text}
variable {run : List Token}

theorem not_feed (hExcerpt : IsExcerpt text before cut run) :
    ∀ c ∈ cut.getLast?, c ≠ '\n' := by
  rintro c hMem rfl
  cases hExcerpt.solid _ hMem

/- The tokens of an excerpt span what it does. -/
theorem ofTokens_eq
    (hExcerpt : IsExcerpt text before cut run)
    (hRun : run ≠ []) :
    Span.ofTokens run =
      ⟨.after before, (Point.after (before ++ cut)).last⟩ := by
  have hFirst :=
    hExcerpt.first (run.head hRun) (List.head?_eq_some_head hRun)
  have hLast :=
    hExcerpt.last (run.getLast hRun)
      (List.getLast?_eq_some_getLast hRun)
  rw [← hFirst, ← hLast]
  cases run with
  | nil => exact absurd rfl hRun
  | cons first more =>
      rw [List.getLast_eq_getLastD]
      rfl

theorem point_start
    (hExcerpt : IsExcerpt text before cut run)
    (hRun : run ≠ []) :
    (Range.ofSpan (.ofTokens run)).start.point = .after before :=
  Range.point_start_ofSpan (by rw [hExcerpt.ofTokens_eq hRun])

theorem point_stop
    (hExcerpt : IsExcerpt text before cut run)
    (hRun : run ≠ []) :
    (Range.ofSpan (.ofTokens run)).stop.point =
      .after (before ++ cut) :=
  Range.point_stop_ofSpan (by rw [hExcerpt.ofTokens_eq hRun])
    hExcerpt.ne_nil hExcerpt.not_feed

/- The range of its tokens covers an excerpt. -/
theorem covered_eq
    (hExcerpt : IsExcerpt text before cut run)
    (hRun : run ≠ []) :
    text.covered (.ofSpan (.ofTokens run)) = cut := by
  rcases hExcerpt.inside with ⟨after, rfl⟩
  exact
    Text.covered_eq (hExcerpt.point_start hRun)
      (hExcerpt.point_stop hRun) after

/- No token of an excerpt goes on after its end. -/
theorem after_le
    {front : Text}
    {token : Token}
    (hExcerpt : IsExcerpt text before cut run)
    (hOrdered : Token.Ordered run)
    (hMem : token ∈ run)
    (hStands : token.StandsAt front) :
    .after (front ++ token.text) ≤ Point.after (before ++ cut) := by
  have hLast := (hOrdered.covers hMem).2
  rw [hExcerpt.ofTokens_eq (List.ne_nil_of_mem hMem)] at hLast
  by_contra hAfter
  have hBefore := (hStands.le_last_iff _).mpr (not_le.mp hAfter)
  exact absurd (hBefore.trans hLast)
    (Point.last_lt_after hExcerpt.ne_nil hExcerpt.not_feed
      before).not_ge

end IsExcerpt

------------------------------------------------------------
-- Symbols
------------------------------------------------------------

namespace Editor.Symbol

/-
  A symbol tells of an assignment of a text. It has its name,
  its selection is in a line of its range and covers the name,
  and the range covers what is read by itself as the
  assignment alone.
-/
structure Tells
    (strict : Bool)
    (text : Text)
    (node : Node Span)
    (symbol : Symbol) : Prop where
  assigns :
    ∃ value span, node = .assign symbol.name value span
  inside :
    symbol.range.start.point ≤ symbol.selection.start.point ∧
      symbol.selection.stop.point ≤ symbol.range.stop.point
  oneLine :
    symbol.selection.start.line = symbol.selection.stop.line
  covers_name : text.covered symbol.selection = symbol.name
  reads_alone :
    ∃ other mark,
      parse strict (text.covered symbol.range) =
          .ok (.sequence [other] mark) ∧
        other.unmark = node.unmark

/- The selection of a symbol stops where its name has ended. -/
theorem point_stop_selection
    {name before : Text}
    {span : Span}
    (hStart : (Range.ofSpan span).start.point = .after before)
    (hSolid : Lexeme.IsSolid name) :
    (ofAssignment name span).selection.stop.point =
      .after (before ++ name) := by
  rw [Point.after_append_solid hSolid, ← hStart]
  simp only [ofAssignment, Position.point, Point.mk.injEq, true_and]
  omega

/- An assignment that is read alone has a symbol that tells of it. -/
theorem tells_of_alone
    {strict : Bool}
    {text name : Text}
    {run tokens : List Token}
    {close : Token}
    {value : Node Span}
    {span : Span}
    (hTokens : tokenize text = .ok (tokens ++ [close]))
    (hRun : run <:+: tokens)
    (hSome : run ≠ [])
    (hAlone : ReadsAlone strict run (.assign name value span)) :
    Tells strict text (.assign name value span)
      (.ofAssignment name span) := by
  have hText := (hasTokens_of_tokenize hTokens).1.of_run hRun
  have hSound : ∀ token ∈ run, token.isSound = true :=
    fun token hMem =>
      isSound_of_tokenize hTokens token
        (List.mem_append_left _ (hRun.subset hMem))
  rcases hAlone.assigns hText.kind_ne hSound with
    ⟨first, sign, rest, _, hAll, hName, hNode, -⟩
  cases hNode
  have hHead : first ∈ run.head? := by
    rw [hAll]
    rfl
  have hMem : first ∈ run := List.mem_of_mem_head? hHead
  -- The range is that of an excerpt, which the name begins.
  rcases exists_excerpt hTokens hRun hHead hName with
    ⟨before, cut, hExcerpt⟩
  rcases hText.standsAt first hMem with
    ⟨front, back, hFront, hStands⟩
  have hStart :
      (ofAssignment first.text (.ofTokens run)).selection.start.point =
        .after front := by
    rw [ofAssignment, hExcerpt.point_start hSome,
      ← hExcerpt.first first hHead, hStands.first_eq]
  have hSolid : Lexeme.IsSolid first.text := by
    refine Format.isSolid_of_isName ?_
    simpa [Token.isSound, hName] using hSound first hMem
  have hStop := point_stop_selection hStart hSolid
  exact
    { assigns := ⟨_, _, rfl⟩
      inside := by
        refine ⟨le_rfl, ?_⟩
        rw [hStop, ofAssignment, hExcerpt.point_stop hSome]
        exact hExcerpt.after_le hText.ordered hMem hStands
      oneLine := rfl
      covers_name := by
        rw [hFront]
        exact Text.covered_eq hStart hStop back
      reads_alone := by
        rcases hExcerpt.read with ⟨others, hCut, hSymbols⟩
        rw [ofAssignment, hExcerpt.covered_eq hSome]
        exact hAlone.exists_parse hSome hText.kind_ne hCut hSymbols }

end Editor.Symbol

------------------------------------------------------------
-- Symbols Of Scripts
------------------------------------------------------------

/- Whether a statement assigns to a name. -/
def Node.isAssignment {α : Type} : Node α → Bool
  | .assign _ _ _ => true
  | _ => false

namespace Editor

variable {statements : List (Node Span)}

/- Each assignment of a script has its symbol, in the same order. -/
theorem forall₂_assignments
    {tells : Node Span → Symbol → Prop}
    (hTells :
      ∀ name value span,
        .assign name value span ∈ statements →
          tells (.assign name value span)
            (.ofAssignment name span))
    (span : Span) :
    List.Forall₂ tells (statements.filter Node.isAssignment)
      (assignments (.sequence statements span)) := by
  induction statements with
  | nil => exact .nil
  | cons node statements ih =>
      have hRest :=
        ih fun name value span hMem =>
          hTells name value span (List.mem_cons_of_mem _ hMem)
      cases node with
      | assign name value span =>
          exact
            .cons (hTells name value span List.mem_cons_self) hRest
      | _ => exact hRest

/- Where statements lie one after the other, so do the ranges. -/
theorem pairwise_assignments
    (hLines : ∀ node ∈ statements, .start ≤ node.span.last)
    (hApart :
      statements.Pairwise fun node other =>
        node.span.last < other.span.first)
    (span : Span) :
    (assignments (.sequence statements span)).Pairwise
      fun symbol other =>
        symbol.range.stop.point ≤ other.range.start.point := by
  refine List.Pairwise.filterMap _ ?_
    (hApart.imp_of_mem fun {node other} hNode _ hBefore =>
      And.intro (hLines node hNode) hBefore)
  rintro node other ⟨hLine, hBefore⟩ symbol hSymbol last hLast
  split at hSymbol
  case h_2 => cases hSymbol
  split at hLast
  case h_2 => cases hLast
  cases hSymbol
  cases hLast
  exact Range.point_stop_le_start hLine hBefore

/-
  The symbols of a script tell of its assignments that are not
  nested, one of each, in their order. Their ranges lie one
  after the other.
-/
theorem tells_of_parse
    {strict : Bool}
    {text : Text}
    {tree : Node Span}
    (hTree : parse strict text = .ok tree) :
    ∃ statements span,
      tree = .sequence statements span ∧
        List.Forall₂ (Symbol.Tells strict text)
          (statements.filter Node.isAssignment)
          (assignments tree) ∧
        (assignments tree).Pairwise fun symbol other =>
          symbol.range.stop.point ≤ other.range.start.point := by
  rcases exists_of_parse hTree with ⟨tokens, hTokens, -⟩
  rcases pieces_of_parse Production.construes_alone hTokens hTree with
    ⟨body, close, statements, rfl, -, rfl, hPieces⟩
  have hText := (hasTokens_of_tokenize hTokens).1
  refine ⟨statements, _, rfl, forall₂_assignments ?_ _,
    pairwise_assignments ?_ ?_ _⟩
  · intro name value span hMem
    rcases hPieces.exists_infix hMem with ⟨run, hRun, hNode, hAlone⟩
    exact Symbol.tells_of_alone hTokens hRun hNode.ne_nil hAlone
  · intro node hMem
    rcases hPieces.exists_infix hMem with ⟨run, hRun, hNode, -⟩
    rcases hNode.row.exists_infix List.mem_cons_self with
      ⟨inner, hInner, hForms⟩
    rcases Token.Ordered.exists_ofTokens hForms.ne_nil with
      ⟨_, -, last, hLast, hSpan⟩
    have hToken := (hInner.trans hRun).subset hLast
    rw [hForms.span_eq, hSpan]
    exact
      (hText.between last hToken).1.trans
        (hText.ordered.forward last hToken)
  · have hRow := (hPieces.mono fun _ _ hBoth => hBoth.1).segment.row
    have hApart := hRow.apart hText.ordered
    rwa [Entry.parts_map] at hApart

/- Values in parentheses and over lines, next to what is no assignment. -/
theorem tells_of_parse_lines :
    ∃ tree statements span,
      parse true
          "a = (1 +\n 2); g(b);\n\x7bc = 3\x7d b <- 'd\n' # e" =
        .ok tree ∧
      tree = .sequence statements span ∧
        List.Forall₂
          (Symbol.Tells true
            "a = (1 +\n 2); g(b);\n\x7bc = 3\x7d b <- 'd\n' # e")
          (statements.filter Node.isAssignment)
          (assignments tree) ∧
        (assignments tree).Pairwise fun symbol other =>
          symbol.range.stop.point ≤ other.range.start.point := by
  have hParses :
      (parse true
        "a = (1 +\n 2); g(b);\n\x7bc = 3\x7d b <- 'd\n' # e"
        ).toOption.isSome = true := by
    decide +kernel
  cases hTree :
      parse true
        "a = (1 +\n 2); g(b);\n\x7bc = 3\x7d b <- 'd\n' # e" with
  | error error =>
      rw [hTree] at hParses
      cases hParses
  | ok tree =>
      rcases tells_of_parse hTree with ⟨statements, span, hAll⟩
      exact ⟨tree, statements, span, rfl, hAll⟩

end Editor

end ExperimentScript
