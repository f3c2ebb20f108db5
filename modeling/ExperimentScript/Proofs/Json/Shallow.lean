import ExperimentScript.Json.Reader

/-
  A JSON text does not nest deeper than it is long.

  Every list and every map takes a code point before its parts
  are read, and no reader gives back what it has taken. So the
  limit of nesting is only hit in texts that are not shorter
  than it.

  Key definitions include:
    * `ExperimentScript.Json.Shallow`

  Main declarations:
    * `ExperimentScript.Json.shallow_value`
    * `ExperimentScript.Json.decode_ne_nestedTooDeeply`
-/

namespace ExperimentScript

namespace Json

variable {α β : Type}
variable {size : Nat}

------------------------------------------------------------
-- Readers That Do Not Hit The Limit
------------------------------------------------------------

/-
  From a text a reader does not hit the limit of nesting, and
  no more of the text is left than there was.
-/
def ShallowAt (reader : Reader α) (text : Text) : Prop :=
  match reader text with
  | .ok (_, rest) => rest.length ≤ text.length
  | .error failure => failure = .notJson

/- A reader does so from texts that are not longer than a size. -/
class Shallow (size : Nat) (reader : Reader α) : Prop where
  shallow :
    ∀ text : Text, text.length ≤ size → ShallowAt reader text

namespace Shallow

instance {first : Reader β} {next : β → Reader α}
    [hFirst : Shallow size first]
    [hNext : ∀ result, Shallow size (next result)] :
    Shallow size (first >>= next) := by
  refine ⟨fun text hSize => ?_⟩
  have hStep := hFirst.shallow text hSize
  unfold ShallowAt at hStep ⊢
  simp only [Bind.bind, StateT.bind, Except.bind]
  cases hRead : first text with
  | error failure =>
      rw [hRead] at hStep
      exact hStep
  | ok pair =>
      rcases pair with ⟨result, middle⟩
      rw [hRead] at hStep
      have hMore :=
        (hNext result).shallow middle (Nat.le_trans hStep hSize)
      unfold ShallowAt at hMore
      dsimp only at hStep ⊢
      cases hAfter : next result middle with
      | error failure =>
          rw [hAfter] at hMore
          exact hMore
      | ok pair =>
          rw [hAfter] at hMore
          exact Nat.le_trans hMore hStep

/- What a step gives may decide what follows it. -/
theorem bind
    (first : Reader β)
    {next : β → Reader α}
    [Shallow size first]
    (hNext : ∀ result, Shallow size (next result)) :
    Shallow size (first >>= next) :=
  inferInstance

instance (result : α) : Shallow size (pure result : Reader α) :=
  ⟨fun _ _ => Nat.le_refl _⟩

instance : Shallow size (throw .notJson : Reader α) :=
  ⟨fun _ _ => rfl⟩

instance : Shallow size (get : Reader Text) :=
  ⟨fun _ _ => Nat.le_refl _⟩

instance : Shallow size peek? := by
  unfold peek?
  infer_instance

instance : Shallow size skipBlanks :=
  ⟨fun _ _ => (List.dropWhile_suffix _).length_le⟩

instance : Shallow size skip := by
  refine ⟨fun text _ => ?_⟩
  change text.tail.length ≤ text.length
  rw [List.length_tail]
  exact Nat.sub_le _ _

instance (condition : Prop) [Decidable condition]
    {first second : Reader α}
    [hFirst : Shallow size first] [hSecond : Shallow size second] :
    Shallow size (if condition then first else second) := by
  split
  · exact hFirst
  · exact hSecond

/- A reader that looks at the whole text first. -/
theorem of_get
    {next : Text → Reader α}
    (hNext :
      ∀ text,
        next text text = .error .notJson ∨
          ∃ result rest,
            next text text = .ok (result, rest) ∧
              rest.length ≤ text.length) :
    Shallow size (get >>= next) := by
  refine ⟨fun text _ => ?_⟩
  change ShallowAt (next text) text
  unfold ShallowAt
  rcases hNext text with hRefused | ⟨result, rest, hRead, hLess⟩
  · rw [hRefused]
  · rw [hRead]
    exact hLess

instance (expected : Text) : Shallow size (exactly expected) := by
  refine .of_get fun text => ?_
  split
  · exact .inr ⟨(), _, rfl, (List.drop_suffix _ _).length_le⟩
  · exact .inl rfl

end Shallow

------------------------------------------------------------
-- Strings And Numbers
------------------------------------------------------------

/- What is put in front of a string does not change what follows it. -/
theorem exists_of_map_withFirst
    {c : CodePoint}
    {body : Option (Text × Text)}
    {value rest : Text}
    (hBody : body.map (withFirst c) = some (value, rest)) :
    ∃ more, body = some (more, rest) := by
  rcases Option.map_eq_some_iff.mp hBody with
    ⟨⟨more, after⟩, hMore, hSame⟩
  cases hSame
  exact ⟨more, hMore⟩

/- What follows a string is not longer than the string with it. -/
theorem length_of_stringBody?
    {text value rest : Text}
    (hBody : stringBody? text = some (value, rest)) :
    rest.length ≤ text.length := by
  fun_induction stringBody? text generalizing value rest
  case case2 =>
    cases hBody
    exact Nat.le_succ _
  case case1 | case3 | case6 | case8 | case10 => cases hBody
  all_goals
    rename_i ih
    rcases exists_of_map_withFirst hBody with ⟨more, hMore⟩
    have hLess := ih hMore
    simp only [List.length_cons] at hLess ⊢
    omega

instance : Shallow size string := by
  refine .bind _ fun _ => .of_get fun text => ?_
  cases hBody : stringBody? text with
  | none => exact .inl rfl
  | some pair =>
      exact
        .inr ⟨pair.1, pair.2, rfl, length_of_stringBody? hBody⟩

instance : Shallow size number := by
  refine .of_get fun text => ?_
  cases numberPart? text with
  | none => exact .inl rfl
  | some written =>
      dsimp only
      cases Lexeme.numberValue written with
      | error cause => exact .inl rfl
      | ok value =>
          exact
            .inr ⟨value, text.drop written.length, rfl,
              (List.drop_suffix _ _).length_le⟩

------------------------------------------------------------
-- Values
------------------------------------------------------------

section Containers

variable (reader : Reader Value)
variable [hReader : Shallow size reader]

include hReader

theorem shallow_items (fuel : Nat) :
    Shallow size (items reader fuel) := by
  induction fuel with
  | zero =>
      unfold items
      infer_instance
  | succ fuel ih =>
      refine .bind _ fun _ => .bind _ fun item => ?_
      refine .bind _ fun _ => .bind _ fun next => ?_
      split
      · infer_instance
      · infer_instance
      · infer_instance

instance (fuel : Nat) : Shallow size (items reader fuel) :=
  shallow_items reader fuel

instance : Shallow size (list reader) := by
  unfold list
  infer_instance

theorem shallow_fields
    (fuel : Nat)
    (before : Fields Value) :
    Shallow size (fields reader fuel before) := by
  induction fuel generalizing before with
  | zero =>
      unfold fields
      infer_instance
  | succ fuel ih =>
      refine .bind _ fun _ => .bind _ fun name => ?_
      refine .bind _ fun _ => .bind _ fun _ => .bind _ fun _ => ?_
      refine .bind _ fun item => .bind _ fun _ => .bind _ fun next => ?_
      split
      · infer_instance
      · infer_instance
      · infer_instance

instance (fuel : Nat) (before : Fields Value) :
    Shallow size (fields reader fuel before) :=
  shallow_fields reader fuel before

instance : Shallow size (map reader) := by
  unfold map
  infer_instance

end Containers

/- What is read after a code point has been taken is shorter. -/
theorem shallowAt_skip
    {next : Reader α}
    [hNext : Shallow size next]
    {text : Text}
    (hText : text ≠ [])
    (hSize : text.length ≤ size + 1) :
    ShallowAt (skip >>= fun _ => next) text := by
  cases text with
  | nil => exact absurd rfl hText
  | cons c rest =>
      have hMore :=
        hNext.shallow rest (Nat.le_of_succ_le_succ hSize)
      change
        match next rest with
        | .ok (_, after) => after.length ≤ (c :: rest).length
        | .error failure => failure = .notJson
      unfold ShallowAt at hMore
      cases hRead : next rest with
      | error failure =>
          rw [hRead] at hMore
          exact hMore
      | ok pair =>
          rw [hRead] at hMore
          exact Nat.le_succ_of_le hMore

/-
  A limit above the length of a text is not hit, by induction
  on the limit: a list or a map takes its first code point.
-/
theorem shallow_value (size : Nat) :
    Shallow size (value (size + 1)) := by
  induction size with
  | zero =>
      refine ⟨fun text hSize => ?_⟩
      cases List.length_eq_zero_iff.mp (Nat.le_zero.mp hSize)
      exact
        (inferInstance : Shallow 0 number).shallow [] (Nat.le_refl _)
  | succ size ih =>
      refine ⟨fun text hSize => ?_⟩
      have hAny (reader : Reader Value)
          [hReader : Shallow (size + 1) reader] :
          ShallowAt reader text :=
        hReader.shallow text hSize
      have hFirst (next : Option CodePoint → Reader Value)
          (hNext : ShallowAt (next text.head?) text) :
          ShallowAt (peek? >>= next) text :=
        hNext
      refine hFirst _ ?_
      split
      · exact hAny _
      · rename_i hHead
        exact shallowAt_skip (by rintro rfl; cases hHead) hSize
      · rename_i hHead
        exact shallowAt_skip (by rintro rfl; cases hHead) hSize
      · exact hAny _
      · exact hAny _
      · exact hAny _
      · exact hAny _

/- What is read from a whole text does not hit the limit either. -/
theorem ShallowAt.run_ne
    {reader : Reader α}
    {text : Text}
    (hReader : ShallowAt reader text) :
    reader.run' text ≠ .error .nestedTooDeeply := by
  unfold ShallowAt at hReader
  rw [StateT.run']
  cases hRead : reader text with
  | ok pair => exact nofun
  | error failure =>
      rw [hRead] at hReader
      rw [hReader]
      exact nofun

/- A text that is shorter than the limit does not hit it. -/
theorem decode_ne_nestedTooDeeply
    {depth : Nat}
    {text : Text}
    (hShort : text.length < depth) :
    decode depth text ≠ .error .nestedTooDeeply := by
  obtain ⟨size, rfl⟩ : ∃ size, depth = size + 1 :=
    Nat.exists_eq_succ_of_ne_zero (Nat.ne_zero_of_lt hShort)
  have hValue := shallow_value size
  have hReader :
      Shallow size
        (do
          skipBlanks
          let result ← value (size + 1)
          skipBlanks
          unless (← get).isEmpty do
            throw .notJson
          return result) :=
    inferInstance
  exact (hReader.shallow text (Nat.le_of_lt_succ hShort)).run_ne

end Json

end ExperimentScript
