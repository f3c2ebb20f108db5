import ExperimentScript.Proofs.Lexer.Places
import ExperimentScript.Proofs.Parser.Traced

/-
  The spans of a tree nest.

  A node is formed from a run of tokens and spans it from the
  first to the last. The runs of its parts lie in its own one
  after the other, and the places of tokens are in the order
  of the tokens, so that the spans lie within each other and
  beside each other as the runs do. Only the root spans more
  than its tokens: it goes from the start to the end of the
  script.

  Key definitions include:
    * `ExperimentScript.Node.Has`
    * `ExperimentScript.Span.Covers`
    * `ExperimentScript.Node.IsPlaced`

  Main declarations:
    * `ExperimentScript.Row.apart`
    * `ExperimentScript.Forms.isPlaced`
    * `ExperimentScript.isPlaced_of_parse`
-/

namespace ExperimentScript

------------------------------------------------------------
-- Spans Of Runs
------------------------------------------------------------

/- A span begins no later than another and ends no earlier. -/
def Span.Covers (span other : Span) : Prop :=
  span.first ≤ other.first ∧ other.last ≤ span.last

/- A run ends with its last token. -/
theorem Span.last_ofTokens
    (tokens : List Token)
    (last : Token) :
    (ofTokens (tokens ++ [last])).last = last.span.last := by
  cases tokens with
  | nil => rfl
  | cons first tokens =>
      rw [List.cons_append, ofTokens_concat]
      rfl

namespace Token.Ordered

variable {tokens others inner : List Token}

/- What a run spans begins and ends with tokens of it. -/
theorem exists_ofTokens
    (hTokens : tokens ≠ []) :
    ∃ first ∈ tokens, ∃ last ∈ tokens,
      Span.ofTokens tokens = first.span.through last.span := by
  rcases List.exists_cons_of_ne_nil hTokens with ⟨first, rest, rfl⟩
  refine ⟨first, by simp, rest.getLastD first, ?_, rfl⟩
  rw [← List.getLast_eq_getLastD hTokens]
  exact List.getLast_mem hTokens

/- What a run spans covers every token of it. -/
theorem covers
    (hOrdered : Ordered tokens)
    {token : Token}
    (hMem : token ∈ tokens) :
    (Span.ofTokens tokens).Covers token.span := by
  constructor
  · cases tokens with
    | nil => cases hMem
    | cons first rest =>
        rcases List.mem_cons.mp hMem with rfl | hRest
        · exact le_rfl
        · exact
            (hOrdered.forward first (by simp)).trans
              (List.rel_of_pairwise_cons hOrdered.apart hRest).le
  · rcases List.eq_nil_or_concat' tokens with rfl | ⟨front, last, rfl⟩
    · cases hMem
    · rw [Span.last_ofTokens]
      rcases List.mem_append.mp hMem with hFront | hLast
      · have hApart :=
          (List.pairwise_append.mp hOrdered.apart).2.2 token hFront
            last (by simp)
        exact hApart.le.trans (hOrdered.forward last (by simp))
      · rw [List.mem_singleton.mp hLast]

/- What a run spans covers what is spanned by a run within it. -/
theorem covers_ofTokens
    (hOrdered : Ordered tokens)
    (hInfix : others <:+: tokens)
    (hOthers : others ≠ []) :
    (Span.ofTokens tokens).Covers (Span.ofTokens others) := by
  rcases exists_ofTokens hOthers with
    ⟨first, hFirst, last, hLast, hSpan⟩
  rw [hSpan]
  exact
    ⟨(hOrdered.covers (hInfix.subset hFirst)).1,
      (hOrdered.covers (hInfix.subset hLast)).2⟩

/- A run begins no later than it ends. -/
theorem first_le_last
    (hOrdered : Ordered tokens)
    (hTokens : tokens ≠ []) :
    (Span.ofTokens tokens).first ≤ (Span.ofTokens tokens).last := by
  rcases List.exists_cons_of_ne_nil hTokens with ⟨first, rest, rfl⟩
  exact
    (hOrdered.forward first (by simp)).trans
      (hOrdered.covers (by simp)).2

/- A run ends before any run that comes after it begins. -/
theorem last_lt_first
    (hOrdered : Ordered (tokens ++ others))
    (hInfix : inner <:+: others)
    (hTokens : tokens ≠ [])
    (hInner : inner ≠ []) :
    (Span.ofTokens tokens).last < (Span.ofTokens inner).first := by
  rcases exists_ofTokens hTokens with ⟨_, _, last, hLast, hSpan⟩
  rcases exists_ofTokens hInner with ⟨first, hFirst, _, _, hOther⟩
  rw [hSpan, hOther]
  exact
    (List.pairwise_append.mp hOrdered.apart).2.2 last hLast
      first (hInfix.subset hFirst)

end Token.Ordered

------------------------------------------------------------
-- Runs Of Parts
------------------------------------------------------------

section Parts

variable {strict : Bool}

/- Every node in a row is formed from a run of its tokens. -/
theorem Row.exists_infix
    {part : Node Span} :
    ∀ {tokens : List Token} {entries : List Entry},
      Row strict tokens entries →
      part ∈ Entry.parts entries →
      ∃ inner, inner <:+: tokens ∧ Forms strict inner part
  | _, _, .nil, hPart => by cases hPart
  | _, _, .silent _ hRest, hPart => by
    rcases hRest.exists_infix hPart with ⟨inner, hInfix, hForms⟩
    exact
      ⟨inner, hInfix.trans (List.suffix_cons _ _).isInfix, hForms⟩
  | _, _, .name _ hRest, hPart => by
    rcases hRest.exists_infix hPart with ⟨inner, hInfix, hForms⟩
    exact
      ⟨inner, hInfix.trans (List.suffix_cons _ _).isInfix, hForms⟩
  | _, _, .part hNode hRest, hPart => by
    rcases List.mem_cons.mp hPart with rfl | hPart
    · exact ⟨_, (List.prefix_append _ _).isInfix, hNode⟩
    · rcases hRest.exists_infix hPart with ⟨inner, hInfix, hForms⟩
      exact
        ⟨inner, hInfix.trans (List.suffix_append _ _).isInfix,
          hForms⟩

/- The nodes in a row lie beside each other in the order of their tokens. -/
theorem Row.apart :
    ∀ {tokens : List Token} {entries : List Entry},
      Row strict tokens entries →
      Token.Ordered tokens →
      (Entry.parts entries).Pairwise fun part other =>
        part.span.last < other.span.first
  | _, _, .nil, _ => .nil
  | _, _, .silent _ hRest, hOrdered =>
    hRest.apart (hOrdered.of_infix (List.suffix_cons _ _).isInfix)
  | _, _, .name _ hRest, hOrdered =>
    hRest.apart (hOrdered.of_infix (List.suffix_cons _ _).isInfix)
  | _, _, .part hNode hRest, hOrdered => by
    refine .cons ?_
      (hRest.apart
        (hOrdered.of_infix (List.suffix_append _ _).isInfix))
    intro other hOther
    rcases hRest.exists_infix hOther with ⟨inner, hInfix, hForms⟩
    rw [hNode.span_eq, hForms.span_eq]
    exact hOrdered.last_lt_first hInfix hNode.ne_nil hForms.ne_nil

/- Every part of a node is formed from a run of its tokens. -/
theorem Forms.exists_infix
    {tokens : List Token}
    {node part : Node Span}
    (hForms : Forms strict tokens node)
    (hPart : part ∈ node.parts) :
    ∃ inner, inner <:+: tokens ∧ Forms strict inner part := by
  cases hForms with
  | «variable» | constant | embedded => cases hPart
  | node _ hEntries _ hRow =>
      rw [Node.parts_of_entries? hEntries] at hPart
      exact hRow.exists_infix hPart
  | repeated _ hRow =>
      apply hRow.exists_infix
      rw [Entry.parts_name, Entry.parts_named]
      rcases List.mem_map.mp hPart with ⟨argument, hMem, rfl⟩
      exact List.mem_map_of_mem (Fields.mem_of_mem_ofList _ hMem)

end Parts

------------------------------------------------------------
-- Nodes In Their Places
------------------------------------------------------------

/- The nodes of a tree: itself, and the parts of nodes of it. -/
inductive Node.Has {α : Type} (tree : Node α) : Node α → Prop where
  | self : Has tree tree
  | part
      {node part : Node α}
      (hNode : Has tree node)
      (hPart : part ∈ node.parts) :
      Has tree part

/-
  A node of the script in a file is at its place. It has a
  span that begins no later than it ends and covers those of
  its parts, which come one after the other. Only arguments
  of which two have one name need not do so. At a name there
  is the name, at a constant the token of it.
-/
structure Node.IsPlaced
    (file text : Text)
    (tokens : List Token)
    (node : Node Span) : Prop where
  isMarked : node.mark? = some node.span
  file_eq : (Location.ofSpan file node.span).file = file
  forward : node.span.first ≤ node.span.last
  covers : ∀ part ∈ node.parts, node.span.Covers part.span
  apart :
    (∃ name arguments,
        node = .callNamed name arguments node.span ∧
          RepeatsArgument tokens node.span.last) ∨
      node.parts.Pairwise fun part other =>
        part.span.last < other.span.first
  names :
    ∀ name span,
      node = .variable name span → text.within span = name
  constants :
    ∀ value span,
      node = .literal value false span →
        ∃ token ∈ tokens,
          token.span = span ∧
            token.constant? = some value ∧
            text.within span = token.text

section Placed

variable {strict : Bool}
variable {tokens run : List Token}
variable {file text : Text}
variable {node : Node Span}

/- What is formed from a run of the tokens of a text is at its place. -/
theorem Forms.isPlaced
    (hForms : Forms strict run node)
    (hRun : run <:+: tokens)
    (hText : text.HasTokens run) :
    node.IsPlaced file text tokens where
  isMarked := by rw [hForms.mark?_eq, hForms.span_eq]
  file_eq := rfl
  forward := by
    rw [hForms.span_eq]
    exact hText.ordered.first_le_last hForms.ne_nil
  covers part hPart := by
    rcases hForms.exists_infix hPart with ⟨inner, hInfix, hPart⟩
    rw [hForms.span_eq, hPart.span_eq]
    exact hText.ordered.covers_ofTokens hInfix hPart.ne_nil
  apart := by
    cases hForms with
    | «variable» | constant | embedded => exact .inr .nil
    | node _ hEntries _ hRow =>
        rw [Node.parts_of_entries? hEntries]
        exact .inr (hRow.apart hText.ordered)
    | repeated _ _ hRepeats =>
        exact .inl ⟨_, _, rfl, hRepeats.of_infix hRun⟩
  names := by
    rintro name span rfl
    cases hForms with
    | «variable» => exact hText.within_eq (by simp)
    | node _ hEntries => cases hEntries
  constants := by
    rintro value span rfl
    cases hForms with
    | constant hConstant =>
        exact
          ⟨_, hRun.subset (by simp), rfl, hConstant,
            hText.within_eq (by simp)⟩
    | node _ hEntries => cases hEntries

/-
  The whole of a text spans it from the start to the end, and
  its nodes are formed from runs of the tokens before the end.
-/
theorem isPlaced_sequence
    {nodes : List (Node Span)}
    (hRow : Row strict run (nodes.map .part))
    (hText : text.HasTokens run) :
    (Node.sequence nodes ⟨.start, (Point.after text).last⟩).IsPlaced
      file text tokens where
  isMarked := rfl
  file_eq := rfl
  forward := Point.start_le_last text
  covers part hPart := by
    rw [Node.parts, ← Entry.parts_map nodes] at hPart
    rcases hRow.exists_infix hPart with ⟨inner, hInfix, hForms⟩
    rcases Token.Ordered.exists_ofTokens hForms.ne_nil with
      ⟨first, hFirst, last, hLast, hSpan⟩
    rw [hForms.span_eq, hSpan]
    exact
      ⟨(hText.between first (hInfix.subset hFirst)).1,
        Point.le_last_of_lt
          (hText.between last (hInfix.subset hLast)).2⟩
  apart := by
    have hApart := hRow.apart hText.ordered
    rw [Entry.parts_map] at hApart
    exact .inr hApart
  names := nofun
  constants := nofun

/- Below a row of nodes every node is formed from a run of its tokens. -/
theorem Row.exists_of_has
    {nodes : List (Node Span)}
    {span : Span}
    (hRow : Row strict run (nodes.map .part))
    (hNode : (Node.sequence nodes span).Has node) :
    node = .sequence nodes span ∨
      ∃ inner, inner <:+: run ∧ Forms strict inner node := by
  induction hNode with
  | self => exact .inl rfl
  | part _ hPart ih =>
      right
      rcases ih with rfl | ⟨inner, hInner, hForms⟩
      · rw [Node.parts, ← Entry.parts_map nodes] at hPart
        exact hRow.exists_infix hPart
      · rcases hForms.exists_infix hPart with ⟨core, hCore, hForms⟩
        exact ⟨core, hCore.trans hInner, hForms⟩

end Placed

/-
  The spans of a script nest. Every node of its tree is in the
  file, begins no later than it ends, and covers its parts;
  these come one after the other, if they are no arguments of
  which two have one name. At the span of a variable stands
  its name, at that of a constant the token it was read from.
-/
theorem isPlaced_of_parse
    {strict : Bool}
    {text : Text}
    {tokens : List Token}
    {tree : Node Span}
    (hTokens : tokenize text = .ok tokens)
    (hTree : parse strict text = .ok tree)
    (file : Text) :
    ∀ node, tree.Has node → node.IsPlaced file text tokens := by
  rcases segment_of_parse hTokens hTree with
    ⟨body, close, nodes, rfl, -, rfl, hSegment⟩
  rcases hasTokens_of_tokenize hTokens with ⟨hText, rfl⟩
  intro node hNode
  rcases hSegment.row.exists_of_has hNode with
    rfl | ⟨run, hRun, hForms⟩
  · exact isPlaced_sequence hSegment.row hText
  · exact
      hForms.isPlaced (hRun.trans (List.prefix_append _ _).isInfix)
        (hText.of_run hRun)

/- Parentheses, a sign that makes two nodes, and a name for two arguments. -/
theorem isPlaced_of_parse_repeated :
    ∃ tokens tree,
      tokenize "x = ((a) != -1);\nf(b: 'c\nd', e: @g, b: {})" =
          .ok tokens ∧
        parse true "x = ((a) != -1);\nf(b: 'c\nd', e: @g, b: {})" =
          .ok tree ∧
        ∀ node,
          tree.Has node →
            node.IsPlaced "h.planout"
              "x = ((a) != -1);\nf(b: 'c\nd', e: @g, b: {})"
              tokens := by
  have hParses :
      (parse true
          "x = ((a) != -1);\nf(b: 'c\nd', e: @g, b: {})").toOption.isSome =
        true := by
    decide +kernel
  cases hTree :
      parse true "x = ((a) != -1);\nf(b: 'c\nd', e: @g, b: {})" with
  | error error =>
      rw [hTree] at hParses
      cases hParses
  | ok tree =>
      rcases exists_of_parse hTree with ⟨tokens, hTokens, -⟩
      exact
        ⟨tokens, tree, hTokens, rfl,
          isPlaced_of_parse hTokens hTree "h.planout"⟩

end ExperimentScript
