import Mathlib.Data.Nat.Find
import ExperimentScript.Json.Reader

/-
  How deep a JSON text nests.

  A limit of nesting only decides whether a text is read. As
  long as it is not hit, readers with different limits do the
  same, so that every JSON text has a least depth at which it
  is read, and no other value than at that depth.

  Key definitions include:
    * `ExperimentScript.Json.Within`

  Main declarations:
    * `ExperimentScript.Json.within_value`
    * `ExperimentScript.Json.exists_least`
-/

namespace ExperimentScript

namespace Json

variable {α β : Type}

------------------------------------------------------------
-- Readers With A Lower Limit
------------------------------------------------------------

/- Unless it hits its limit a reader does the same as another one. -/
def Within (reader other : Reader α) : Prop :=
  ∀ text,
    reader text = .error .nestedTooDeeply ∨
      reader text = other text

namespace Within

theorem refl (reader : Reader α) : Within reader reader :=
  fun _ => .inr rfl

theorem bind
    {first other : Reader β}
    {second follow : β → Reader α}
    (hFirst : Within first other)
    (hSecond : ∀ result, Within (second result) (follow result)) :
    Within (first >>= second) (other >>= follow) := by
  intro text
  simp only [Bind.bind, StateT.bind, Except.bind]
  rcases hFirst text with hLimit | hSame
  · rw [hLimit]
    exact .inl rfl
  · rw [hSame]
    cases other text with
    | error failure => exact .inr rfl
    | ok pair => exact hSecond pair.1 pair.2

/- The limits only matter for what follows a step. -/
theorem step
    (first : Reader β)
    {second follow : β → Reader α}
    (hSecond : ∀ result, Within (second result) (follow result)) :
    Within (first >>= second) (first >>= follow) :=
  bind (refl first) hSecond

end Within

section Containers

variable {reader other : Reader Value}
variable (hReader : Within reader other)

include hReader

theorem within_items (fuel : Nat) :
    Within (items reader fuel) (items other fuel) := by
  induction fuel with
  | zero => exact .refl _
  | succ fuel ih =>
      refine .step _ fun _ => .bind hReader fun item => ?_
      refine .step _ fun _ => .step _ fun next => ?_
      split
      · exact .step _ fun _ => .bind ih fun _ => .refl _
      · exact .refl _
      · exact .refl _

theorem within_list : Within (list reader) (list other) := by
  refine .step _ fun _ => .step _ fun next => ?_
  split
  · exact .refl _
  · exact .step _ fun text =>
      .bind (within_items hReader _) fun _ => .refl _

theorem within_fields
    (fuel : Nat)
    (before : Fields Value) :
    Within (fields reader fuel before)
      (fields other fuel before) := by
  induction fuel generalizing before with
  | zero => exact .refl _
  | succ fuel ih =>
      refine .step _ fun _ => .step _ fun name => ?_
      refine .step _ fun _ => .step _ fun _ => .step _ fun _ => ?_
      refine .bind hReader fun item => ?_
      refine .step _ fun _ => .step _ fun next => ?_
      split
      · exact .step _ fun _ => ih _
      · exact .refl _
      · exact .refl _

theorem within_map : Within (map reader) (map other) := by
  refine .step _ fun _ => .step _ fun next => ?_
  split
  · exact .refl _
  · exact .step _ fun text =>
      .bind (within_fields hReader _ _) fun _ => .refl _

end Containers

theorem within_value
    {depth larger : Nat}
    (hDepth : depth ≤ larger) :
    Within (value depth) (value larger) := by
  induction depth generalizing larger with
  | zero => exact fun _ => .inl rfl
  | succ depth ih =>
      obtain ⟨larger, rfl⟩ : ∃ less, larger = less + 1 :=
        Nat.exists_eq_succ_of_ne_zero (by omega)
      have hLess := ih (Nat.le_of_succ_le_succ hDepth)
      refine .step _ fun next => ?_
      split
      · exact .refl _
      · exact .step _ fun _ => within_list hLess
      · exact .step _ fun _ => within_map hLess
      · exact .refl _
      · exact .refl _
      · exact .refl _
      · exact .refl _

------------------------------------------------------------
-- Whole Texts
------------------------------------------------------------

/- A text that nests deeper than one limit may be read within another. -/
theorem decode_eq_or
    {depth larger : Nat}
    (hDepth : depth ≤ larger)
    (text : Text) :
    decode depth text = .error .nestedTooDeeply ∨
      decode depth text = decode larger text := by
  have hWithin :
      Within
        (do
          skipBlanks
          let result ← value depth
          skipBlanks
          unless (← get).isEmpty do
            throw .notJson
          return result)
        (do
          skipBlanks
          let result ← value larger
          skipBlanks
          unless (← get).isEmpty do
            throw .notJson
          return result) :=
    .step _ fun _ => .bind (within_value hDepth) fun _ => .refl _
  simp only [decode, StateT.run']
  rcases hWithin text with hLimit | hSame
  · rw [hLimit]
    exact .inl rfl
  · rw [hSame]
    exact .inr rfl

/-
  A JSON text is read from some depth on, always as the same
  value, and hits the limit of nesting before.
-/
theorem exists_least
    {depth : Nat}
    {text : Text}
    {result : Value}
    (hDecode : decode depth text = .ok result) :
    ∃ least, ∀ limit,
      decode limit text =
        if least ≤ limit then .ok result
        else .error .nestedTooDeeply := by
  classical
  have hSome : ∃ limit, decode limit text = .ok result :=
    ⟨depth, hDecode⟩
  have hFound := Nat.find_spec hSome
  refine ⟨Nat.find hSome, fun limit => ?_⟩
  split
  · rename_i hLimit
    rcases decode_eq_or hLimit text with hNested | hSame
    · rw [hFound] at hNested
      cases hNested
    · rw [← hSame, hFound]
  · rename_i hLimit
    rcases decode_eq_or (Nat.le_of_lt (Nat.lt_of_not_le hLimit))
        text with hNested | hSame
    · exact hNested
    · exact absurd (hSame.trans hFound)
        (Nat.find_min hSome (Nat.lt_of_not_le hLimit))

end Json

end ExperimentScript
