import ExperimentScript.Json.Reader
import ExperimentScript.Proofs.Number.Numeral
import ExperimentScript.Proofs.Script.Fields

/-
  Constants read from JSON are within bounds: their integers
  are short enough, their other numbers finite, and the names
  of their fields distinct.

  Key definitions include:
    * `ExperimentScript.Json.Gives`

  Main declarations:
    * `ExperimentScript.Json.isBounded_of_decode`
-/

namespace ExperimentScript

namespace Json

variable {α β : Type}

------------------------------------------------------------
-- What Readers Give
------------------------------------------------------------

/- Whatever text a reader accepts, it gives something good. -/
def Gives
    (reader : Reader α)
    (good : α → Prop) : Prop :=
  ∀ text result rest,
    reader text = .ok (result, rest) → good result

namespace Gives

variable {good : α → Prop}

theorem pure
    {result : α}
    (hGood : good result) :
    Gives (Pure.pure result) good := by
  intro text given rest hGiven
  cases hGiven
  exact hGood

theorem throw (failure : Failure) :
    Gives (MonadExcept.throw failure : Reader α) good := by
  intro text given rest hGiven
  cases hGiven

theorem bind
    {between : β → Prop}
    {first : Reader β}
    {second : β → Reader α}
    (hFirst : Gives first between)
    (hSecond : ∀ result, between result → Gives (second result) good) :
    Gives (first >>= second) good := by
  intro text given rest hGiven
  simp only [Bind.bind, StateT.bind, Except.bind] at hGiven
  cases hStep : first text with
  | error failure =>
      rw [hStep] at hGiven
      cases hGiven
  | ok pair =>
      rcases pair with ⟨result, left⟩
      rw [hStep] at hGiven
      exact
        hSecond result (hFirst text result left hStep)
          left given rest hGiven

/- A step of which nothing needs to be known. -/
theorem any (reader : Reader α) :
    Gives reader fun _ => True :=
  fun _ _ _ _ => trivial

/- A step whose result does not matter. -/
theorem step
    (first : Reader β)
    {second : β → Reader α}
    (hSecond : ∀ result, Gives (second result) good) :
    Gives (first >>= second) good :=
  bind (any first) fun result _ => hSecond result

end Gives

------------------------------------------------------------
-- Numbers
------------------------------------------------------------

/- What is taken as whole digits is made of digits. -/
theorem allDigits_wholePart (text : Text) :
    (wholePart text).AllDigits := by
  unfold wholePart
  split
  · intro c hMem
    rw [List.mem_singleton] at hMem
    exact hMem ▸ rfl
  · exact Text.allDigits_takeWhile _

/- The longest JSON number at the front of a text has the parts of a number. -/
theorem numberPart?_eq_some
    {text written : Text}
    (hWritten : numberPart? text = some written) :
    ∃ numeral : Numeral, numeral.text = written := by
  unfold numberPart? at hWritten
  extract_lets sign afterSign whole afterWhole fraction at hWritten
  have hForm : sign = [] ∨ sign = "+" ∨ sign = "-" := by
    dsimp only [sign]
    split
    · exact .inr (.inr rfl)
    · exact .inl rfl
  split at hWritten
  · cases hWritten
  · rename_i hPresent
    cases hWritten
    refine
      ⟨⟨_, _, _, _, hForm, ?_, Lexeme.fractionPart_form _,
        Lexeme.exponentPart_form _, ?_⟩, rfl⟩
    · exact allDigits_wholePart _
    · intro hEmpty
      exact hPresent (List.isEmpty_iff.mpr hEmpty.1)

/- A number that is read is within bounds. -/
theorem gives_number :
    Gives number fun value => value.isBounded = true := by
  refine .step _ fun text => ?_
  split
  · rename_i written hWritten
    rcases numberPart?_eq_some hWritten with ⟨numeral, rfl⟩
    split
    · rename_i value hValue
      refine .step _ fun _ => .pure ?_
      exact (Lexeme.isBounded_of_numberValue numeral hValue).2
    · exact .throw _
  · exact .throw _

------------------------------------------------------------
-- Lists And Maps
------------------------------------------------------------

section Containers

variable {reader : Reader Value}
variable (hReader : Gives reader fun value => value.isBounded = true)

include hReader

theorem gives_items (fuel : Nat) :
    Gives (items reader fuel)
      fun values => Value.areBounded values = true := by
  induction fuel with
  | zero => exact .throw _
  | succ fuel ih =>
      refine .step _ fun _ => .bind hReader fun item hItem => ?_
      refine .step _ fun _ => .step _ fun next => ?_
      split
      · refine .step _ fun _ => .bind ih fun values hValues => ?_
        exact .pure (by simp [Value.areBounded, hItem, hValues])
      · refine .step _ fun _ => .pure ?_
        simp [Value.areBounded, hItem]
      · exact .throw _

theorem gives_list :
    Gives (list reader) fun value => value.isBounded = true := by
  refine .step _ fun _ => .step _ fun next => ?_
  split
  · exact .step _ fun _ => .pure rfl
  · refine .step _ fun text => ?_
    exact .bind (gives_items hReader _) fun values hValues =>
      .pure hValues

theorem gives_fields
    (fuel : Nat)
    (before : Fields Value)
    (hDistinct : before.areDistinct = true)
    (hBefore : ∀ entry ∈ before, entry.2.isBounded = true) :
    Gives (fields reader fuel before) fun after =>
      Value.isBounded (.map after) = true := by
  induction fuel generalizing before with
  | zero => exact .throw _
  | succ fuel ih =>
      refine .step _ fun _ => .step _ fun name => ?_
      refine .step _ fun _ => .step _ fun _ => .step _ fun _ => ?_
      refine .bind hReader fun item hItem => ?_
      have hDistinctAfter :=
        Fields.areDistinct_set hDistinct name item
      have hAfter :
          ∀ entry ∈ before.set name item,
            entry.2.isBounded = true :=
        Fields.forall_mem_set
          (fun _ (value : Value) => value.isBounded = true)
          hBefore hItem
      refine .step _ fun _ => .step _ fun next => ?_
      split
      · exact .step _ fun _ => ih _ hDistinctAfter hAfter
      · refine .step _ fun _ => .pure ?_
        simp only [Value.isBounded, hDistinctAfter,
          Bool.true_and]
        exact (Value.haveBounded_iff _).mpr hAfter
      · exact .throw _

theorem gives_map :
    Gives (map reader) fun value => value.isBounded = true := by
  refine .step _ fun _ => .step _ fun next => ?_
  split
  · exact .step _ fun _ => .pure rfl
  · refine .step _ fun text => ?_
    exact .bind (gives_fields hReader _ [] rfl (by simp))
      fun entries hEntries => .pure hEntries

end Containers

------------------------------------------------------------
-- Values
------------------------------------------------------------

/- A value that is read is within bounds. -/
theorem gives_value (depth : Nat) :
    Gives (value depth) fun value => value.isBounded = true := by
  induction depth with
  | zero => exact .throw _
  | succ depth ih =>
      refine .step _ fun next => ?_
      split
      · exact .step _ fun _ => .pure rfl
      · exact .step _ fun _ => gives_list ih
      · exact .step _ fun _ => gives_map ih
      · exact .step _ fun _ => .pure rfl
      · exact .step _ fun _ => .pure rfl
      · exact .step _ fun _ => .pure rfl
      · exact gives_number

/- A JSON text that is accepted spells a constant within bounds. -/
theorem isBounded_of_decode
    {depth : Nat}
    {text : Text}
    {result : Value}
    (hDecode : decode depth text = .ok result) :
    result.isBounded = true := by
  have hGives :
      Gives
        (do
          skipBlanks
          let result ← value depth
          skipBlanks
          unless (← get).isEmpty do
            throw .notJson
          return result)
        fun value => value.isBounded = true := by
    refine .step _ fun _ => .bind (gives_value depth)
      fun result hResult => ?_
    refine .step _ fun _ => .step _ fun left => ?_
    split
    · exact .pure hResult
    · exact .step _ fun _ => .pure hResult
  simp only [decode, StateT.run', Functor.map, Except.map]
    at hDecode
  split at hDecode
  · cases hDecode
  · rename_i pair hRead
    cases hDecode
    exact hGives text pair.1 pair.2 hRead

end Json

end ExperimentScript
