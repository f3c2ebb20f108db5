import ExperimentScript.Host
import ExperimentScript.Proofs.Command.Effect
import ExperimentScript.Proofs.Toml.Encoded
import ExperimentScript.Proofs.Wire.Dump

/-
  Compiling a script is done as a whole or not at all.

  A command that compiles a script finds the text of its wire
  form before it writes anything, and that text always has an
  encoding. So it leaves all files as they are, or it writes the
  whole text to the file it is to write to, and to no other.

  Key definitions include:
    * `ExperimentScript.Settings.layoutFor`
    * `ExperimentScript.Command.Compiles`
    * `ExperimentScript.FileTree.WritesOnly`

  Main declarations:
    * `ExperimentScript.Command.compile_whole`
-/

namespace ExperimentScript

------------------------------------------------------------
-- Written Texts
------------------------------------------------------------

namespace FileTree

/- One file gets a text that is written, and no other file changes. -/
def WritesOnly
    (before after : FileTree)
    (spelled text : Text) : Prop :=
  ∃ place string,
    before.target spelled = .ok place ∧
      text.toString? = some string ∧
      after.bytes? place = some string.toUTF8 ∧
      ∀ other,
        other ≠ place → after.bytes? other = before.bytes? other

theorem writesOnly_put
    {tree : FileTree}
    {spelled text : Text}
    {place : Path}
    {string : String}
    (hPlace : tree.target spelled = .ok place)
    (hString : text.toString? = some string) :
    tree.WritesOnly (tree.put place string.toUTF8) spelled text :=
  ⟨place, string, hPlace, hString, tree.bytes?_put_self place _,
    fun _ hOther => tree.bytes?_put_of_ne _ hOther⟩

end FileTree

------------------------------------------------------------
-- Texts Of Wire Forms
------------------------------------------------------------

namespace Wire

variable {β : Type}

/- What was reached is the result. -/
theorem eq_of_reached
    {levels deep : Nat}
    {result found : β}
    (hFound : reached levels deep result = .ok found) :
    result = found := by
  unfold reached at hFound
  split at hFound
  · exact Except.ok.inj hFound
  · cases hFound

/- A text that was found is that of a wire form in a layout. -/
theorem exists_of_dump_eq_ok
    [Room]
    {named : Bool}
    {node : Node β}
    {asked : Except Failure Json.Layout}
    {caseKey text : Text}
    (hNode : node.isStatement named = true)
    (hText : dump asked caseKey node = .ok text) :
    ∃ layout,
      asked = .ok layout ∧
        encode caseKey node = .ok (form caseKey node) ∧
        text = Json.write layout 0 (form caseKey node) := by
  rw [dump_eq _ caseKey hNode] at hText
  rcases exists_of_bind_eq_ok hText with ⟨value, hValue, hRest⟩
  rcases exists_of_bind_eq_ok hRest with ⟨layout, hLayout, hWritten⟩
  cases eq_of_reached hValue
  exact
    ⟨layout, hLayout, (encode_eq caseKey hNode).trans hValue,
      (eq_of_reached hWritten).symm⟩

end Wire

------------------------------------------------------------
-- Layouts Of Compiled Scripts
------------------------------------------------------------

namespace Settings

section Layouts

variable [Room]
variable {settings : Settings}
variable {indent : Option Int}
variable {compact : Bool}
variable {layout : Json.Layout}

/-
  The layout that is asked for: one line, a number of blanks for
  each level, or what the settings say.
-/
def layoutFor
    (settings : Settings)
    (indent : Option Int)
    (compact : Bool) :
    Except Wire.Failure Json.Layout :=
  match compact, indent with
  | true, _ => .ok .oneLine
  | false, some width => Wire.indentedBy width
  | false, none => settings.layout

/- A text that settings give as the unit of indentation is blank. -/
def HasBlankUnit (settings : Settings) : Prop :=
  ∀ unit,
    settings.outputIndent = .text unit → Json.AllBlank unit

/- A layout has blank lines, unless the settings give it another unit. -/
theorem layoutFor_cases
    (hLayout : settings.layoutFor indent compact = .ok layout) :
    layout.IsBlank ∨
      ∃ unit,
        compact = false ∧ indent = none ∧
          settings.outputIndent = .text unit ∧
          layout = .indented unit := by
  have hWidth {width : Int}
      (hIndented : Wire.indentedBy width = .ok layout) :
      layout.IsBlank :=
    Wire.isBlank_of_layoutOf (show Wire.layoutOf (some width) = _
      from hIndented)
  unfold layoutFor at hLayout
  split at hLayout
  · cases hLayout
    exact .inl trivial
  · exact .inl (hWidth hLayout)
  · unfold Settings.layout at hLayout
    split at hLayout
    · rename_i unit hUnit
      cases hLayout
      exact .inr ⟨unit, rfl, rfl, hUnit, rfl⟩
    · split at hLayout
      · exact .inl (hWidth hLayout)
      · cases hLayout

/- What settings that were read begin lines with has an encoding. -/
theorem isCharacter_of_begins
    (hIndent : settings.outputIndent.IsEncodable)
    (hLayout : settings.layoutFor indent compact = .ok layout)
    {c : CodePoint}
    (hBegins : layout.Begins c) :
    c.IsCharacter := by
  rcases layoutFor_cases hLayout with
    hBlank | ⟨unit, -, -, hUnit, rfl⟩
  · have hIs := Json.Layout.isBlank_of_begins hBlank hBegins
    simp only [Json.isBlank, Bool.or_eq_true, beq_iff_eq] at hIs
    rcases hIs with ((rfl | rfl) | rfl) | rfl <;> exact ⟨_, rfl⟩
  · rw [hUnit] at hIndent
    cases hIndent with
    | text hText =>
        rcases hBegins with rfl | hMem
        · exact ⟨_, rfl⟩
        · exact hText c hMem

/-
  The text of a script that was read is that of its wire form,
  with a name for guards that only matters where there are any.
-/
theorem exists_of_dump_eq_ok
    {α : Type}
    {named : Bool}
    {script : Node α}
    {text : Text}
    {asked : Except Wire.Failure Json.Layout}
    (hScript : script.isStatement named = true)
    (hText : settings.dump asked script = .ok text) :
    ∃ key layout,
      (settings.caseName = .ok key ∨ script.hasCase = false) ∧
        asked = .ok layout ∧
        Wire.encode key script = .ok (Wire.form key script) ∧
        text = Json.write layout 0 (Wire.form key script) := by
  unfold dump at hText
  split at hText
  · rename_i key hKey
    rcases Wire.exists_of_dump_eq_ok hScript hText with
      ⟨layout, hLayout, hWritten⟩
    exact ⟨key, layout, .inl hKey, hLayout, hWritten⟩
  · cases hCase : script.hasCase with
    | true =>
        -- whatever else is found out, the run stops in the end
        rw [if_pos hCase] at hText
        split at hText
        · cases hText
        · rcases exists_of_bind_eq_ok hText with ⟨_, -, hRest⟩
          rcases exists_of_bind_eq_ok hRest with ⟨_, -, hError⟩
          cases hError
    | false =>
        rw [if_neg (by rw [hCase]; decide)] at hText
        rcases Wire.exists_of_dump_eq_ok hScript hText with
          ⟨layout, hLayout, hWritten⟩
        exact ⟨_, layout, .inr rfl, hLayout, hWritten⟩

end Layouts

end Settings

namespace Command

section Whole

variable [Room]

------------------------------------------------------------
-- The Text Of A Script
------------------------------------------------------------

/-
  A script at a path compiles to a text with an indent that may
  be given, or compactly.
-/
structure Compiles
    (tree : FileTree)
    (path : Path)
    (indent : Option Int)
    (compact : Bool)
    (settings : Settings)
    (script : Node Span)
    (text : Text) : Prop where
  holds : ∃ source, Holds tree path settings source script
  dumps :
    settings.dump (settings.layoutFor indent compact) script =
      .ok text

/-
  A text is read back as the wire form of a script, under a name
  for guards that is that of the settings wherever it matters.
-/
def ReadsBack
    (settings : Settings)
    (script : Node Span)
    (text : Text) : Prop :=
  ∃ key wire,
    (settings.caseName = .ok key ∨ script.hasCase = false) ∧
      Wire.encode key script = .ok wire ∧
      (script.all Node.isUnpaired = true →
        key.isUnpaired = true →
          ∀ depth,
            Json.decode depth text =
              Json.limited depth wire.nesting wire)

namespace Compiles

variable {tree : FileTree}
variable {path : Path}
variable {indent : Option Int}
variable {compact : Bool}
variable {settings : Settings}
variable {script : Node Span}
variable {text : Text}
variable (hText : Compiles tree path indent compact settings script text)

include hText

/- Every line of the text has an encoding. -/
theorem isEncodable : Text.IsEncodable (text ++ "\n") := by
  rcases hText.holds with ⟨source, hHolds⟩
  have hScript := Wire.isStatement_of_parse hHolds.parses
  rcases Settings.exists_of_dump_eq_ok hScript hText.dumps with
    ⟨key, layout, -, hLayout, -, rfl⟩
  have hIndent := Settings.isEncodable_of_nearest hHolds.nearest
  refine Text.IsEncodable.append (fun c hMem => ?_)
    (Text.isEncodable_ofString "\n")
  rcases Json.covers_write layout 0 _
      (Wire.isBounded_form key hScript) c hMem with
    ⟨-, hVisible⟩ | hBegins
  · cases c with
    | char character => exact ⟨character, rfl⟩
    | surrogate offset =>
        rw [CodePoint.toNat] at hVisible
        omega
  · exact Settings.isCharacter_of_begins hIndent hLayout hBegins

/- Indented by blanks, the text is shown and read as it is. -/
theorem faithful
    [Console]
    (hBlank :
      compact = true ∨ indent ≠ none ∨ settings.HasBlankUnit) :
    Console.shown (text ++ "\n") = text ++ "\n" ∧
      ReadsBack settings script text := by
  rcases hText.holds with ⟨source, hHolds⟩
  have hScript := Wire.isStatement_of_parse hHolds.parses
  rcases Settings.exists_of_dump_eq_ok hScript hText.dumps with
    ⟨key, layout, hKey, hLayout, hForm, rfl⟩
  have hBounded := Wire.isBounded_form key hScript
  have hLayoutBlank : layout.IsBlank := by
    rcases Settings.layoutFor_cases hLayout with
      hIs | ⟨unit, hCompact, hIndent, hUnit, rfl⟩
    · exact hIs
    · rcases hBlank with hCompact' | hIndent' | hSettings
      · rw [hCompact] at hCompact'
        cases hCompact'
      · exact absurd hIndent hIndent'
      · exact hSettings unit hUnit
  constructor
  · refine Console.shown_of_no_escape _ fun hEscape => ?_
    rcases List.mem_append.mp hEscape with hMem | hMem
    · rcases Json.covers_write layout 0 _ hBounded _ hMem with
        ⟨hVisible, -⟩ | hBegins
      · exact absurd hVisible (by decide)
      · exact absurd
          (Json.Layout.isBlank_of_begins hLayoutBlank hBegins)
          (by decide)
    · exact absurd hMem (by decide)
  · refine ⟨key, _, hKey, hForm,
      fun hUnpaired hKeyUnpaired depth => ?_⟩
    exact Json.decode_write hLayoutBlank depth hBounded
      (Wire.isUnpaired_form hKeyUnpaired hScript hUnpaired)

end Compiles

------------------------------------------------------------
-- Runs
------------------------------------------------------------

variable [Console]

/- Prints a text, or writes it to a file and says so. -/
def deliver
    (file : Text)
    (output : Option Text)
    (text : Text) :
    Run Unit :=
  match output.getD [] with
  | [] => Run.printLine text
  | target => do
    Run.write target (text ++ "\n")
    Run.printLine ("compiled " ++ file ++ " -> " ++ target)

/- What there is when a text has been printed or written. -/
structure Delivered
    (output : Option Text)
    (text : Text)
    (before after : World) : Prop where
  printed :
    output.getD [] = [] →
      after.tree = before.tree ∧
        after.output =
          before.output ++ Console.shown (text ++ "\n")
  written :
    output.getD [] ≠ [] →
      before.tree.WritesOnly after.tree (output.getD [])
        (text ++ "\n")

/- The names that are said when a file has been written have no encoding. -/
def Unsaid
    (file : Text)
    (output : Option Text) : Prop :=
  Text.toString?
      ("compiled " ++ file ++ " -> " ++ output.getD [] ++ "\n") =
    none

section Runs

variable {path : Path}
variable {indent : Option Int}
variable {compact : Bool}
variable {settings : Settings}
variable {script : Node Span}
variable {text : Text}
variable (file : Text)
variable (output : Option Text)
variable {world : World}

/- What a script compiles to is delivered. -/
theorem compileFile_of_compiles
    (hText :
      Compiles world.tree path indent compact settings script text) :
    compileFile file path output indent compact world =
      deliver file output text world := by
  rcases hText.holds with ⟨source, hHolds⟩
  have hSettings : settingsFor path world = .ok settings world := by
    rw [settingsFor, Run.bind_of_ok Run.tree_apply, hHolds.nearest]
    rfl
  have hSource : read path world = .ok source world := by
    rw [read, Run.bind_of_ok Run.tree_apply, hHolds.reads]
    rfl
  have hScript :
      parseOrStop settings file source world = .ok script world := by
    rw [parseOrStop, hHolds.parses]
    rfl
  have hDump :
      Run.check Fault.wire
          (settings.dump (settings.layoutFor indent compact) script)
          world =
        .ok text world := by
    rw [hText.dumps]
    rfl
  rw [compileFile, Run.bind_of_ok hSettings, Run.bind_of_ok hSource,
    Run.bind_of_ok hScript]
  exact Run.bind_of_ok hDump

/- A script that compiles to nothing leaves all files as they are. -/
theorem compileFile_of_not_compiles
    (hNone :
      ∀ settings script text,
        ¬ Compiles world.tree path indent compact settings script
          text) :
    (compileFile file path output indent compact).Ends world
      (fun _ _ => False)
      (fun _ after => after.tree = world.tree) := by
  rw [compileFile]
  simp only [settingsFor, read, Run.ends_bind, Run.ends_tree,
    Run.ends_check]
  refine ⟨fun settings hSettings => ⟨fun source hSource => ?_,
    fun _ _ => trivial⟩, fun _ _ => trivial⟩
  rw [parseOrStop]
  cases hParse : parse settings.isStrict source with
  | error error => exact rfl
  | ok script =>
      rw [Run.ends_pure]
      refine ⟨fun text hText => ?_, fun _ _ => rfl⟩
      exact
        (hNone settings script text
          ⟨⟨source, hSettings, hSource, hParse⟩, hText⟩).elim

/-
  A text that has an encoding is delivered, unless it cannot be
  written. Only what is said afterwards may have no encoding.
-/
omit [Room] in
theorem ends_deliver
    (hText : Text.IsEncodable (text ++ "\n")) :
    (deliver file output text).Ends world
      (fun _ after => Delivered output text world after)
      (fun _ after =>
        after.tree = world.tree ∨
          Unsaid file output ∧
            world.tree.WritesOnly after.tree (output.getD [])
              (text ++ "\n")) := by
  unfold deliver
  split
  · rename_i hNone
    rcases hText.exists_string with ⟨string, hString⟩
    rw [Run.printLine, Run.ends_print, hString]
    exact ⟨fun _ => ⟨rfl, rfl⟩, fun hSome => absurd hNone hSome⟩
  · rename_i hSome
    rcases hText.exists_string with ⟨string, hString⟩
    rw [Run.ends_bind, Run.ends_write]
    rcases world.tree.writeText_cases (output.getD [])
        (text ++ "\n") with
      ⟨error, hWritten⟩ | ⟨place, hPlace, hCases⟩
    · rw [hWritten]
      exact ⟨by rintro _ ⟨⟩, fun _ _ => .inl rfl⟩
    · rcases hCases with ⟨found, hFound, hWritten⟩ | ⟨hNone, -⟩
      · have hWrites :=
          FileTree.writesOnly_put hPlace hFound
        rw [hWritten]
        refine ⟨fun _ _ => ?_, by rintro _ ⟨⟩⟩
        rw [Run.printLine, Run.ends_print]
        split
        · rename_i hLine
          exact .inr ⟨Option.isNone_iff_eq_none.mp hLine, hWrites⟩
        · exact ⟨fun hNone => absurd hNone hSome, fun _ => hWrites⟩
      · rw [hString] at hNone
        cases hNone

theorem ends_compileFile
    (hText :
      Compiles world.tree path indent compact settings script text) :
    (compileFile file path output indent compact).Ends world
      (fun _ after => Delivered output text world after)
      (fun _ after =>
        after.tree = world.tree ∨
          Unsaid file output ∧
            world.tree.WritesOnly after.tree (output.getD [])
              (text ++ "\n")) := by
  unfold Run.Ends
  rw [compileFile_of_compiles file output hText]
  exact ends_deliver file output hText.isEncodable

end Runs

------------------------------------------------------------
-- Commands
------------------------------------------------------------

section Commands

variable {tree : FileTree}
variable {words : List Text}
variable {file : Text}
variable {output : Option Text}
variable {indent : Option Int}
variable {compact : Bool}
variable (input : Text)
variable
  (hWords :
    Console.ofWords? words =
      some (.compile file output indent compact))

include hWords

/- A command to compile a file is refused, or it is a run on that file. -/
theorem execute_compile :
    ((execute tree words input).ending ≠ .success ∧
        (execute tree words input).world.tree = tree) ∨
      ∃ path,
        existingFile tree file = .ok path ∧
          execute tree words input =
            complete tree
              (compileFile file path output indent compact) := by
  rw [execute, hWords]
  cases hOutput : checkOutput tree (output.getD []) with
  | error refusal =>
      simp only [prepare, hOutput, bind, Except.bind]
      cases refusal <;> exact .inl ⟨by simp, rfl⟩
  | ok _ =>
      cases hFile : existingFile tree file with
      | error refusal =>
          simp only [prepare, hOutput, hFile, bind, Except.bind]
          cases refusal <;> exact .inl ⟨by simp, rfl⟩
      | ok path =>
          refine .inr ⟨path, rfl, ?_⟩
          simp only [prepare, hOutput, hFile, bind, Except.bind]
          rfl

end Commands

/- Without a file to write to, the text of a script is printed. -/
theorem execute_print
    {tree : FileTree}
    {words : List Text}
    {file : Text}
    {path : Path}
    {indent : Option Int}
    {compact : Bool}
    {settings : Settings}
    {script : Node Span}
    {text : Text}
    (input : Text)
    (hWords :
      Console.ofWords? words =
        some (.compile file none indent compact))
    (hFile : existingFile tree file = .ok path)
    (hText :
      Compiles tree path indent compact settings script text) :
    execute tree words input =
      ⟨.success,
        ⟨tree, Console.shown (text ++ "\n"), []⟩⟩ := by
  have hRun :
      compileFile file path none indent compact ⟨tree, [], []⟩ =
        .ok ()
          ⟨tree, Console.shown (text ++ "\n"), []⟩ := by
    rcases hText.isEncodable.exists_string with ⟨string, hString⟩
    have hWorld :
        Compiles (World.mk tree [] []).tree path indent compact
          settings script text := hText
    rw [compileFile_of_compiles file none hWorld]
    simp only [deliver, Option.getD_none, Run.printLine, Run.print,
      hString]
    rfl
  have hPrepared :
      prepare tree input (.compile file none indent compact) =
        .ok (compileFile file path none indent compact) := by
    simp only [prepare, hFile]
    rfl
  rw [execute, hWords]
  simp only [hPrepared, complete, EStateM.run, hRun]

/-
  Compiling a script is done as a whole or not at all. A command
  that fails leaves all files as they are, unless what it says
  at last has no encoding. One that succeeds has found the text
  of the script, which is what it prints without an output, and
  what it writes to the output and nowhere else. Indented by
  blanks that text is printed as it is and read back.
-/
theorem compile_whole
    {tree : FileTree}
    {words : List Text}
    {file : Text}
    {output : Option Text}
    {indent : Option Int}
    {compact : Bool}
    (input : Text)
    (hWords :
      Console.ofWords? words =
        some (.compile file output indent compact)) :
    let outcome := execute tree words input
    (outcome.ending.code ≠ 0 →
      outcome.world.tree = tree ∨
        Unsaid file output ∧
          ∃ path settings script text,
            existingFile tree file = .ok path ∧
              Compiles tree path indent compact settings script
                text ∧
              tree.WritesOnly outcome.world.tree (output.getD [])
                (text ++ "\n")) ∧
      (outcome.ending.code = 0 →
        ∃ path settings script text,
          existingFile tree file = .ok path ∧
            Compiles tree path indent compact settings script text ∧
            Delivered output text ⟨tree, [], []⟩ outcome.world ∧
            (∃ others,
              Console.ofWords? others =
                some (.compile file none indent compact)) ∧
            (∀ others,
              Console.ofWords? others =
                  some (.compile file none indent compact) →
                execute tree others input =
                  ⟨.success,
                    ⟨tree, Console.shown (text ++ "\n"),
                      []⟩⟩) ∧
            (compact = true ∨ indent ≠ none ∨
                settings.HasBlankUnit →
              Console.shown (text ++ "\n") = text ++ "\n" ∧
                ReadsBack settings script text)) := by
  intro outcome
  rcases execute_compile input hWords with
    ⟨hEnding, hTree⟩ | ⟨path, hFile, hRun⟩
  · exact
      ⟨fun _ => .inl hTree,
        fun hCode => absurd (Ending.code_eq_zero hCode) hEnding⟩
  have hOutcome :
      outcome =
        complete tree
          (compileFile file path output indent compact) := hRun
  rw [hOutcome]
  by_cases hSome :
      ∃ settings script text,
        Compiles tree path indent compact settings script text
  · rcases hSome with ⟨settings, script, text, hText⟩
    rcases complete_code_cases
        (ends_compileFile file output hText) with
      ⟨hCode, hDone⟩ | ⟨hCode, _, hStopped⟩
    · refine ⟨fun hFails => absurd hCode hFails,
        fun _ => ⟨path, settings, script, text, hFile, hText, hDone,
          Console.exists_printing _ _ _ _ _ hWords, fun others hOthers => ?_,
          hText.faithful⟩⟩
      exact execute_print input hOthers hFile hText
    · refine ⟨fun _ => hStopped.imp_right fun hWritten => ?_,
        fun hEnds => absurd hEnds hCode⟩
      exact
        ⟨hWritten.1, path, settings, script, text, hFile, hText,
          hWritten.2⟩
  · have hNone settings script text :
        ¬ Compiles tree path indent compact settings script text :=
      fun hText => hSome ⟨settings, script, text, hText⟩
    rcases complete_code_cases
        (compileFile_of_not_compiles file output hNone) with
      ⟨-, hNever⟩ | ⟨hCode, _, hTree⟩
    · exact hNever.elim
    · exact ⟨fun _ => .inl hTree, fun hEnds => absurd hEnds hCode⟩

end Whole

/- A script beside settings with a unit of indentation. -/
def treeWithUnit (unit : String) : FileTree :=
  ⟨[],
    [(["planout.toml"],
        ("[output]\nindent = \"" ++ unit ++ "\"\n").toUTF8),
      (["a.planout"], "x;".toUTF8)]⟩

/- A unit of two blanks is fine. -/
theorem compile_whole_blanks :
    ∃ settings script text,
      (treeWithUnit "  ").WritesOnly
          (execute (treeWithUnit "  ")
            ["compile", "-o", "b.json", "a.planout"] []).world.tree
          "b.json" (text ++ "\n") ∧
        execute (treeWithUnit "  ") ["compile", "a.planout"] [] =
          ⟨.success, ⟨treeWithUnit "  ", text ++ "\n", []⟩⟩ ∧
        ReadsBack settings script text := by
  have hWords :
      Console.ofWords? ["compile", "-o", "b.json", "a.planout"] =
        some (.compile "a.planout" (some "b.json") none false) := by
    decide +kernel
  have hWhole :=
    @compile_whole _ _ (treeWithUnit "  ") _ _ _ _ _ [] hWords
  rcases hWhole.2 (by decide +kernel) with
    ⟨path, settings, script, text, hFile, hText, hDone, -, hPrints,
      hFaithful⟩
  have hPath :
      (existingFile (treeWithUnit "  ") "a.planout").toOption =
        some [("a.planout" : Text)] := by
    decide +kernel
  rw [hFile] at hPath
  cases hPath
  have hUnits :
      (Settings.nearest (treeWithUnit "  ")
            [("a.planout" : Text)]).toOption.map
          (fun settings => settings.layout.toOption) =
        some (some (.indented "  ")) := by
    decide +kernel
  have hBlank : settings.HasBlankUnit := by
    rcases hText.holds with ⟨source, hHolds⟩
    intro unit hUnit
    rw [hHolds.nearest] at hUnits
    simp only [Settings.layout, hUnit, Except.toOption,
      Option.map_some, Option.some.injEq,
      Json.Layout.indented.injEq] at hUnits
    rw [hUnits]
    intro c hMem
    revert c
    decide
  rcases hFaithful (.inr (.inr hBlank)) with ⟨hPrinted, hReads⟩
  have hAlone := hPrints ["compile", "a.planout"] (by decide +kernel)
  rw [hPrinted] at hAlone
  exact
    ⟨settings, script, text, hDone.written (by decide), hAlone,
      hReads⟩

/- The text of a script with two strokes for each level. -/
def strokes : Text :=
  "\x7b\n--\"op\": \"seq\",\n--\"seq\": [\n----\x7b\n" ++
    "------\"op\": \"get\",\n------\"var\": \"x\"\n" ++
    "----\x7d\n--]\n\x7d"

/-
  A unit of indentation that is not blank makes a text that
  cannot be read, or that is written otherwise than printed. A
  script whose name has no encoding is compiled, and then the
  command fails.
-/
theorem compile_unfaithful :
    ((execute (treeWithUnit "--") ["compile", "a.planout"]
          []).ending.code = 0 ∧
      (execute (treeWithUnit "--") ["compile", "a.planout"]
          []).world.output = strokes ++ "\n" ∧
      ∀ depth wire, Json.decode depth strokes ≠ .ok wire) ∧
    ((execute (treeWithUnit "\\u001b[m")
          ["compile", "-o", "b.json", "a.planout"] []).ending.code =
        0 ∧
      (execute (treeWithUnit "\\u001b[m")
          ["compile", "-o", "b.json", "a.planout"]
          []).world.tree.bytes? ["b.json"] ≠
        ((execute (treeWithUnit "\\u001b[m")
          ["compile", "a.planout"] []).world.output.toString?).map
            String.toUTF8) ∧
    ∃ tree name,
      (execute tree ["compile", "-o", "b.json", name]
            []).ending.code ≠ 0 ∧
        (execute tree ["compile", "-o", "b.json", name]
            []).world.tree.bytes? ["b.json"] ≠
          tree.bytes? ["b.json"] := by
  refine ⟨⟨by decide +kernel, by decide +kernel, ?_⟩,
    ⟨by decide +kernel, by decide +kernel⟩,
    ⟨[], [([[.surrogate 0x4FF]], "x;".toUTF8)]⟩,
    [.surrogate 0x4FF], by decide +kernel, by decide +kernel⟩
  intro depth wire hRead
  cases depth <;> cases hRead

end Command

end ExperimentScript
