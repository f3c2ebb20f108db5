import ExperimentScript.Text.Basic

/-
  Control sequences of terminals. A sequence begins with an
  escape character and an opening bracket, goes on with
  parameters and then with intermediate characters, and ends
  with a final character. What is not shown on a terminal is
  written without them.

  Key definitions include:
    * `ExperimentScript.Text.afterControl?`
    * `ExperimentScript.Text.withoutControls`

  Main declarations:
    * `ExperimentScript.Text.withoutControls_eq_self`
-/

namespace ExperimentScript

------------------------------------------------------------
-- Parts Of Control Sequences
------------------------------------------------------------

namespace CodePoint

/- Whether a code point belongs to the parameters: `0` to `?`. -/
def isParameter (c : CodePoint) : Bool :=
  0x30 ≤ c.toNat && c.toNat ≤ 0x3F

/- Whether a code point is an intermediate one: a blank to `/`. -/
def isIntermediate (c : CodePoint) : Bool :=
  0x20 ≤ c.toNat && c.toNat ≤ 0x2F

/- Whether a code point ends a sequence: `@` to `~`. -/
def isFinal (c : CodePoint) : Bool :=
  0x40 ≤ c.toNat && c.toNat ≤ 0x7E

end CodePoint

------------------------------------------------------------
-- Taking Them Out
------------------------------------------------------------

namespace Text

/- What stands after the final character of a sequence. -/
def afterFinal? : Text → Option Text
  | c :: rest => if c.isFinal then some rest else none
  | [] => none

/- What stands after the control sequence at the front of a text. -/
def afterControl? : Text → Option Text
  | .char '\x1b' :: .char '[' :: rest =>
    afterFinal?
      ((rest.dropWhile CodePoint.isParameter).dropWhile
        CodePoint.isIntermediate)
  | _ => none

/- What stands after a final character is shorter than the text. -/
theorem length_afterFinal?
    {text after : Text}
    (hAfter : afterFinal? text = some after) :
    after.length < text.length := by
  unfold afterFinal? at hAfter
  split at hAfter
  · split at hAfter
    · cases hAfter
      simp
    · cases hAfter
  · cases hAfter

/- What stands after a control sequence is shorter than the text. -/
theorem length_afterControl?
    {text after : Text}
    (hAfter : afterControl? text = some after) :
    after.length < text.length := by
  unfold afterControl? at hAfter
  split at hAfter
  · rename_i rest
    have hFinal := length_afterFinal? hAfter
    have hIntermediate :=
      (List.dropWhile_suffix
        (l := rest.dropWhile CodePoint.isParameter)
        CodePoint.isIntermediate).length_le
    have hParameter :=
      (List.dropWhile_suffix
        (l := rest) CodePoint.isParameter).length_le
    simp only [List.length_cons]
    omega
  · cases hAfter

/- A text with all its control sequences taken out. -/
def withoutControls (text : Text) : Text :=
  match _hAfter : afterControl? text with
  | some after => withoutControls after
  | none =>
    match text with
    | [] => []
    | c :: rest => c :: withoutControls rest
termination_by text.length
decreasing_by
  · exact length_afterControl? _hAfter
  · simp

/- A text without escape characters has no control sequences. -/
theorem withoutControls_eq_self
    {text : Text}
    (hEscape : .char '\x1b' ∉ text) :
    text.withoutControls = text := by
  induction text with
  | nil => rw [withoutControls]; rfl
  | cons c rest ih =>
      rw [List.mem_cons, not_or] at hEscape
      have hNone : afterControl? (c :: rest) = none := by
        unfold afterControl?
        split
        · rename_i hFront
          cases hFront
          exact absurd rfl hEscape.1
        · rfl
      rw [withoutControls.eq_def]
      split
      · rename_i hSome
        rw [hNone] at hSome
        cases hSome
      · exact congrArg (c :: ·) (ih hEscape.2)

end Text

end ExperimentScript
