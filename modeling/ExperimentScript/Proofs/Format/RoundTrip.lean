import ExperimentScript.Host
import ExperimentScript.Proofs.Format.Readable
import ExperimentScript.Proofs.Format.Settled
import ExperimentScript.Proofs.Parser.Flat
import ExperimentScript.Proofs.Parser.Shape

/-
  Writing a script and reading it back.

  The canonical text of a script is read as the script again,
  node for node and constant for constant. A script has such
  a text unless one of its lines stands too deep for a margin,
  it nests deeper than there is room for, or a constant that
  was read from JSON names a field by what is no identifier.

  Key definitions include:
    * `ExperimentScript.ReadsAs`
    * `ExperimentScript.Format.HasRoom`

  Main declarations:
    * `ExperimentScript.readsAs_of_statements`
    * `ExperimentScript.Format.readsAs_of_script`
    * `ExperimentScript.Format.script_readsBack`
    * `ExperimentScript.Format.exists_parse_without_text`
    * `ExperimentScript.Format.parsed_readsBack`
-/

namespace ExperimentScript

------------------------------------------------------------
-- Reading A Whole Text
------------------------------------------------------------

/- A text is read as a tree, unless it nests too deeply. -/
def ReadsAs
    (strict : Bool)
    (text : Text)
    (tree : Node Unit) : Prop :=
  match parse strict text with
  | .ok read => read.unmark = tree
  | .error (.syntactic error) => error.isDepthLimit = true
  | .error (.lexical _) => False

/- The statements up to the end of the tokens are a script. -/
theorem at_script
    {strict : Bool}
    {symbols : List Symbol}
    {nodes : List (Node Unit)}
    (hStatements : Statements strict symbols nodes) :
    (script strict).At (symbols ++ [⟨.endOfInput, [], none⟩])
      fun tree _ => tree.unmark = .sequence nodes () := by
  apply Parse.At.bind_fuel
    (fun fuel =>
      hStatements .endOfInput maxDepth fuel rfl)
    (by simp)
  intro trees hTrees
  apply Parse.At.bind
  apply Parse.At.current
  intro token _
  apply Parse.At.pure
  rw [Node.unmark, Node.unmarkAll_eq_map, hTrees]

/- A text whose tokens are statements is read as them. -/
theorem readsAs_of_statements
    {strict : Bool}
    {text : Text}
    {symbols : List Symbol}
    {nodes : List (Node Unit)}
    (hScans : Scans false text symbols false [])
    (hStatements : Statements strict symbols nodes) :
    ReadsAs strict text (.sequence nodes ()) := by
  rcases hScans.tokenize with ⟨tokens, hTokens, hSymbols⟩
  have hSome : tokens ≠ [] := by
    rintro rfl
    simp at hSymbols
  have hRead :=
    at_script hStatements (Cursor.start tokens)
      ((Cursor.symbols_start hSome).trans hSymbols)
  unfold ReadsAs parse
  rw [hTokens]
  simp only [parseTokens]
  unfold Parse.Ends at hRead
  cases hScript : script strict (Cursor.start tokens) with
  | ok tree after =>
      rw [hScript] at hRead
      simpa [EStateM.run, hScript] using hRead
  | error error after =>
      rw [hScript] at hRead
      simpa [EStateM.run, hScript] using hRead

namespace Format

variable {α : Type}
variable {options : Options}
variable {named : Bool}

/- The canonical text of a shaped script is read as the script. -/
theorem readsAs_of_script
    [Room]
    {tree : Node α}
    {text : Text}
    (hScript : tree.isScript named = true)
    (hText : script options tree = .ok text) :
    ReadsAs options.strict text tree.unmark := by
  cases tree with
  | sequence body mark =>
      rcases exists_of_bind_eq_ok hText with
        ⟨lines, hLines, hJoin⟩
      rcases
          body_of_statements (fun node _ => isReadable node) hScript
            hLines with
        ⟨symbols, hScanned, hStatements⟩
      cases lines with
      | nil =>
          cases hJoin
          exact readsAs_of_statements (hScanned []) hStatements
      | cons line lines =>
          cases hJoin
          have hScans := (hScanned "\n").trans Scans.newline
          rw [List.append_nil] at hScans
          exact readsAs_of_statements hScans hStatements
  | _ => cases hScript

------------------------------------------------------------
-- Writing And Reading Back
------------------------------------------------------------

/-
  There is room for a script: for the margin of its deepest
  line, and for as many levels as it nests.
-/
structure HasRoom
    [Room]
    (options : Options)
    (tree : Node α) : Prop where
  fits : options.fits (scriptDepth tree) = true
  reached : scriptNesting tree ≤ Room.formatLevels

/- There is room for a script whose text is settled just when both fit. -/
theorem hasRoom_iff [Room] {tree : Node α} :
    HasRoom options tree ↔
      options.fits (scriptDepth tree) = true ∧
        within Room.formatLevels (scriptNesting tree) = true := by
  rw [within_iff]
  exact ⟨fun hRoom => ⟨hRoom.fits, hRoom.reached⟩,
    fun hBoth => ⟨hBoth.1, hBoth.2⟩⟩

/- A script that nests deeper than there is room for has no text. -/
theorem script_ne_ok
    [Room]
    {tree : Node α}
    (hScript : tree.isScript named = true)
    (hDeep : Room.formatLevels < scriptNesting tree)
    (text : Text) :
    script options tree ≠ .ok text := by
  intro hText
  have hSettles :
      Settles (script options tree) _ _ _ :=
    settles_script hScript
  rw [hText] at hSettles
  exact Nat.not_le.mpr hDeep (within_iff.mp hSettles.2.2)

/-
  Whatever room there is, some script is read, its comparisons
  one after the other, and has no canonical text.
-/
theorem exists_parse_without_text
    [Room]
    (options : Options) :
    ∃ (source : Text) (tree : Node Span),
      parse options.strict source = .ok tree ∧
        ∀ text, script options tree ≠ .ok text := by
  rcases
      exists_parse_comparison options.strict Room.formatLevels with
    ⟨tree, hParse, hNesting⟩
  rcases exists_of_parse hParse with ⟨tokens, hTokens, hRead⟩
  have hScript := isScript_of_parseTokens hTokens hRead
  have hDeep : Room.formatLevels < scriptNesting tree := by
    cases tree with
    | sequence body mark =>
        have hBody := hNesting Value.brackets
        rw [Node.nesting] at hBody
        rw [scriptNesting]
        omega
    | _ => cases hScript
  exact ⟨_, tree, hParse, script_ne_ok hScript hDeep⟩

/-
  A tree that was read from a text has a canonical text,
  which is read as the tree, if its embedded fields are named
  by identifiers and there is room for it. If only the names
  are not identifiers, that is why it has none; it can only be
  so where strings are read as JSON.
-/
theorem parsed_readsBack
    [Room]
    (options : Options)
    (source : Text)
    (tree : Node Span)
    (hParse : parse options.strict source = .ok tree) :
    ((∃ text,
        script options tree = .ok text ∧
          ReadsAs options.strict text tree.unmark) ↔
      tree.isScript true = true ∧ HasRoom options tree) ∧
      (tree.isScript true = false →
        HasRoom options tree →
        ∃ name, script options tree = .error (.noFieldName name)) ∧
      (options.strict = false → tree.isScript true = true) := by
  rcases exists_of_parse hParse with ⟨tokens, hTokens, hRead⟩
  have hScript := isScript_of_parseTokens hTokens hRead
  have hSettles :
      Settles (script options tree) _ _ _ :=
    settles_script hScript
  rw [hasRoom_iff]
  refine ⟨⟨?_, ?_⟩, ?_, ?_⟩
  · rintro ⟨text, hText, _⟩
    rw [hText] at hSettles
    exact hSettles
  · rintro ⟨hNamed, hFits, hReached⟩
    rw [hNamed, hFits, hReached] at hSettles
    rcases hSettles.exists_ok with ⟨text, hText⟩
    exact ⟨text, hText, readsAs_of_script hScript hText⟩
  · rintro hNamed ⟨hFits, hReached⟩
    rw [hNamed, hFits, hReached] at hSettles
    exact hSettles.exists_noFieldName
  · intro hLenient
    rw [hLenient] at hScript
    exact hScript

/- A field that JSON names by two words is read but not written. -/
theorem parsed_readsBack_field :
    ∃ (tree : Node Span) (name : Text),
      parse true "x = @'\x7b\"a b\": 1\x7d';" = .ok tree ∧
        script ⟨4, true⟩ tree = .error (.noFieldName name) := by
  have hFacts :
      (parse true "x = @'\x7b\"a b\": 1\x7d';").toOption.map
          (fun tree =>
            (tree.isScript true, scriptDepth tree,
              scriptNesting tree)) =
        some (false, 0, 3) := by
    decide +kernel
  cases hParse : parse true "x = @'\x7b\"a b\": 1\x7d';" with
  | error error =>
      rw [hParse] at hFacts
      cases hFacts
  | ok tree =>
      rw [hParse] at hFacts
      simp only [Except.toOption, Option.map_some, Option.some.injEq,
        Prod.mk.injEq] at hFacts
      have hWhole := parsed_readsBack ⟨4, true⟩ _ tree hParse
      have hRoom : HasRoom ⟨4, true⟩ tree := by
        refine ⟨?_, ?_⟩
        · rw [hFacts.2.1]
          exact fits_zero
        · rw [hFacts.2.2]
          decide
      rcases hWhole.2.1 hFacts.1 hRoom with ⟨name, hName⟩
      exact ⟨tree, name, rfl, hName⟩

end Format

end ExperimentScript
