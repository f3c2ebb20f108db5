import ExperimentScript.Host
import ExperimentScript.Proofs.Parser.Flat
import ExperimentScript.Proofs.Wire.Form

/-
  Compiled scripts as texts.

  Whatever script is read, its wire form is written in ASCII
  characters and can be read back, as long as the blanks that
  indent a level can be made and there is room for the levels
  of the script and of its form. Nothing else can go wrong.

  Key definitions include:
    * `ExperimentScript.Wire.layoutOf`
    * `ExperimentScript.Wire.dumps`
    * `ExperimentScript.Wire.Fits`
    * `ExperimentScript.Wire.Reaches`

  Main declarations:
    * `ExperimentScript.Wire.dump_eq`
    * `ExperimentScript.Wire.dumps_readsBack`
    * `ExperimentScript.Wire.dumps_tooDeep`
-/

namespace ExperimentScript

namespace Wire

variable {α : Type}

------------------------------------------------------------
-- Layouts
------------------------------------------------------------

/- The layout with an indent, or all on one line without one. -/
def layoutOf [Room] : Option Int → Except Failure Json.Layout
  | none => .ok .oneLine
  | some width => indentedBy width

/- The JSON text of the wire form of a node. -/
def dumps
    [Room]
    (indent : Option Int)
    (caseKey : Text)
    (node : Node α) :
    Except Failure Text :=
  dump (layoutOf indent) caseKey node

/- The blanks of an indent can be made. -/
def Fits [Room] (indent : Option Int) : Prop :=
  ∀ width ∈ indent,
    -Text.widthLimit ≤ width ∧ width < Text.widthLimit ∧
      width ≤ Room.blanks

theorem isBlank_of_layoutOf
    [Room]
    {indent : Option Int}
    {layout : Json.Layout}
    (hLayout : layoutOf indent = .ok layout) :
    layout.IsBlank := by
  cases indent with
  | none =>
      cases hLayout
      trivial
  | some width =>
      rw [layoutOf, indentedBy, Text.margin] at hLayout
      cases hCheck : Text.checkWidth width with
      | error error =>
          rw [hCheck] at hLayout
          cases hLayout
      | ok _ =>
          rw [hCheck] at hLayout
          cases hLayout
          intro c hMem
          rw [List.eq_of_mem_replicate hMem]
          rfl

/- There is a layout exactly for an indent that can be made. -/
theorem layoutOf_cases
    [Room]
    (indent : Option Int) :
    (Fits indent ∧ ∃ layout, layoutOf indent = .ok layout) ∨
      (¬ Fits indent ∧
        ∃ error, layoutOf indent = .error (.width error)) := by
  cases indent with
  | none =>
      refine .inl ⟨fun width hMem => ?_, _, rfl⟩
      cases hMem
  | some width =>
      have hFits :
          Fits (some width) ↔
            -Text.widthLimit ≤ width ∧ width < Text.widthLimit ∧
              width ≤ Room.blanks := by
        simp [Fits]
      rw [hFits, layoutOf, indentedBy, Text.margin, Text.checkWidth]
      by_cases hRange :
          width < -Text.widthLimit ∨ Text.widthLimit ≤ width
      · rw [if_pos hRange]
        exact .inr ⟨by omega, _, rfl⟩
      · rw [if_neg hRange]
        by_cases hLong : (Room.blanks : Int) < width
        · rw [if_pos hLong]
          exact .inr ⟨by omega, _, rfl⟩
        · rw [if_neg hLong]
          exact .inl ⟨by omega, _, rfl⟩

------------------------------------------------------------
-- Texts Of Scripts
------------------------------------------------------------

end Wire

namespace Value

mutual

/- Numbers within bounds are finite. -/
theorem isFinite_of_isBounded :
    ∀ value : Value,
      value.isBounded = true → Json.isFinite value = true
  | .null | .bool _ | .int _ | .text _ => fun _ => rfl
  | .float _ => fun hBounded => hBounded
  | .list items => areFinite_of_areBounded items
  | .map fields => fun hBounded => by
    rw [isBounded, Bool.and_eq_true] at hBounded
    exact haveFinite_of_haveBounded fields hBounded.2

theorem areFinite_of_areBounded :
    ∀ items : List Value,
      areBounded items = true → Json.areFinite items = true
  | [] => fun _ => rfl
  | item :: items => fun hBounded => by
    rw [areBounded, Bool.and_eq_true] at hBounded
    rw [Json.areFinite, Bool.and_eq_true]
    exact ⟨isFinite_of_isBounded item hBounded.1,
      areFinite_of_areBounded items hBounded.2⟩

theorem haveFinite_of_haveBounded :
    ∀ fields : List (Text × Value),
      haveBounded fields = true → Json.haveFinite fields = true
  | [] => fun _ => rfl
  | (_, value) :: fields => fun hBounded => by
    rw [haveBounded, Bool.and_eq_true] at hBounded
    rw [Json.haveFinite, Bool.and_eq_true]
    exact ⟨isFinite_of_isBounded value hBounded.1,
      haveFinite_of_haveBounded fields hBounded.2⟩

end

end Value

namespace Wire

variable {α : Type}

/-
  There is room for the levels of a tree whose wire form is
  made, and for those of the form as it is written.
-/
structure Reaches
    [Room]
    (caseKey : Text)
    (node : Node α) : Prop where
  encoded : nesting node ≤ Room.wireLevels
  written : (form caseKey node).nesting ≤ Room.jsonLevels

/-
  The text of a tree of the shape of a script is that of its
  form. It has none if there is no layout to write it in or no
  room for its levels.
-/
theorem dump_eq
    [Room]
    {named : Bool}
    {node : Node α}
    (layout : Except Failure Json.Layout)
    (caseKey : Text)
    (hNode : node.isStatement named = true) :
    dump layout caseKey node =
      (do
        let value ←
          reached Room.wireLevels (nesting node) (form caseKey node)
        let chosen ← layout
        reached Room.jsonLevels value.nesting
          (Json.write chosen 0 value)) := by
  have hFinite :=
    Value.isFinite_of_isBounded _ (isBounded_form caseKey hNode)
  rw [dump, encode_eq caseKey hNode]
  unfold reached
  split
  · cases layout with
    | error error => rfl
    | ok chosen =>
        simp only [bind, Except.bind, Json.encode, hFinite, if_true]
        by_cases hDeep :
            (form caseKey node).nesting ≤ Room.jsonLevels
        · rw [if_pos hDeep, if_neg (Nat.not_lt.mpr hDeep)]
          rfl
        · rw [if_neg hDeep, if_pos (Nat.not_le.mp hDeep)]
          rfl
  · rfl

/- With a layout there is a text just as far as there is room. -/
theorem dump_eq_ok
    [Room]
    {named : Bool}
    {node : Node α}
    (layout : Json.Layout)
    {caseKey : Text}
    (hNode : node.isStatement named = true)
    (hReaches : Reaches caseKey node) :
    dump (.ok layout) caseKey node =
      .ok (Json.write layout 0 (form caseKey node)) := by
  rw [dump_eq _ caseKey hNode, reached, if_pos hReaches.encoded]
  exact if_pos hReaches.written

/-
  Every script that is read compiles, to a text of ASCII
  characters, if the blanks of the indent can be made and there
  is room for its levels and those of its wire form; if not,
  that is why there is no text. Where no two surrogates stand
  so that a reader joins them, the text is read as exactly the
  wire form, as far as it nests no deeper than the reader goes.
-/
theorem dumps_readsBack
    [Room]
    {strict : Bool}
    {source : Text}
    {tree : Node Span}
    (hParse : parse strict source = .ok tree)
    (indent : Option Int)
    (caseKey : Text) :
    encode caseKey tree =
        reached Room.wireLevels (nesting tree) (form caseKey tree) ∧
      (Fits indent → Reaches caseKey tree →
        ∃ text, dumps indent caseKey tree = .ok text ∧
          text.IsAscii ∧
          (tree.all Node.isUnpaired = true →
            caseKey.isUnpaired = true →
            ∀ depth, Json.decode depth text =
              Json.limited depth (form caseKey tree).nesting
                (form caseKey tree))) ∧
      (¬ (Fits indent ∧ Reaches caseKey tree) →
        (¬ Fits indent ∧
            ∃ error, dumps indent caseKey tree =
              .error (.width error)) ∨
          (¬ Reaches caseKey tree ∧
            dumps indent caseKey tree = .error .nestedTooDeeply)) := by
  have hNode := isStatement_of_parse hParse
  have hBounded := isBounded_form caseKey hNode
  refine ⟨encode_eq caseKey hNode, fun hFits hReaches => ?_,
    fun hNot => ?_⟩
  · rcases layoutOf_cases indent with
      ⟨_, layout, hLayout⟩ | ⟨hWide, _⟩
    · have hBlank := isBlank_of_layoutOf hLayout
      refine ⟨_, ?_, Json.isAscii_write hBlank 0 _ hBounded, ?_⟩
      · rw [dumps, hLayout]
        exact dump_eq_ok layout hNode hReaches
      · intro hUnpaired hKey depth
        exact Json.decode_write hBlank depth hBounded
          (isUnpaired_form hKey hNode hUnpaired)
    · exact absurd hFits hWide
  · rw [dumps, dump_eq _ caseKey hNode]
    by_cases hEncoded : nesting tree ≤ Room.wireLevels
    · rw [reached, if_pos hEncoded]
      rcases layoutOf_cases indent with
        ⟨hFits, layout, hLayout⟩ | ⟨hWide, error, hLayout⟩
      · have hWritten :
            ¬ (form caseKey tree).nesting ≤ Room.jsonLevels :=
          fun hWritten => hNot ⟨hFits, hEncoded, hWritten⟩
        rw [hLayout]
        exact
          .inr ⟨fun hReaches => hWritten hReaches.written,
            if_neg hWritten⟩
      · rw [hLayout]
        exact .inl ⟨hWide, error, rfl⟩
    · rw [reached, if_neg hEncoded]
      exact .inr ⟨fun hReaches => hEncoded hReaches.encoded, rfl⟩

/-
  A low surrogate before a high one is kept, whatever negative
  indent there is.
-/
theorem dumps_readsBack_surrogates :
    ∃ (tree : Node Span) (wire : Value) (text : Text),
      parse true "x = f(k = \"\\udc00\\ud800\", n = @[1, 2.5]);" =
          .ok tree ∧
        encode defaultCaseKey tree = .ok wire ∧
        dumps (some (-1)) defaultCaseKey tree = .ok text ∧
        text.IsAscii ∧
        Json.decode 9 text = .ok wire := by
  have hFacts :
      (parse true
          "x = f(k = \"\\udc00\\ud800\", n = @[1, 2.5]);").toOption.map
          (fun tree =>
            (tree.all Node.isUnpaired, nesting tree,
              (form defaultCaseKey tree).nesting)) =
        some (true, 4, 7) := by
    decide +kernel
  cases hParse :
      parse true
        "x = f(k = \"\\udc00\\ud800\", n = @[1, 2.5]);" with
  | error error =>
      rw [hParse] at hFacts
      cases hFacts
  | ok tree =>
      rw [hParse] at hFacts
      simp only [Except.toOption, Option.map_some, Option.some.injEq,
        Prod.mk.injEq] at hFacts
      rcases hFacts with ⟨hUnpaired, hNesting, hForm⟩
      rcases dumps_readsBack hParse (some (-1)) defaultCaseKey with
        ⟨hWire, hText, _⟩
      have hFits : Fits (some (-1)) := by
        intro width hMem
        cases hMem
        decide
      have hReaches : Reaches defaultCaseKey tree := by
        refine ⟨?_, ?_⟩
        · rw [hNesting]
          decide
        · rw [hForm]
          decide
      rcases hText hFits hReaches with ⟨text, hDumps, hAscii, hReads⟩
      refine
        ⟨tree, form defaultCaseKey tree, text, rfl, ?_, hDumps,
          hAscii, ?_⟩
      · rw [hWire, reached, if_pos hReaches.encoded]
      · rw [hReads hUnpaired (by decide) 9, hForm]
        rfl

/-
  Whatever room there is, some script is read, its comparisons
  one after the other, and nests too deeply to be compiled.
-/
theorem dumps_tooDeep
    [Room]
    (strict : Bool) :
    ∃ (source : Text) (tree : Node Span),
      parse strict source = .ok tree ∧
        ∀ indent caseKey,
          dumps indent caseKey tree = .error .nestedTooDeeply := by
  rcases exists_parse_comparison strict Room.wireLevels with
    ⟨tree, hParse, hNesting⟩
  have hDeep : ¬ nesting tree ≤ Room.wireLevels := by
    rw [nesting, hNesting]
    omega
  refine ⟨_, tree, hParse, fun indent caseKey => ?_⟩
  rw [dumps, dump_eq _ caseKey (isStatement_of_parse hParse),
    reached, if_neg hDeep]
  rfl

end Wire

end ExperimentScript
