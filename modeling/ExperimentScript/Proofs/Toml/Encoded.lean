import ExperimentScript.Proofs.Format.Constant
import ExperimentScript.Settings

/-
  Texts in settings have an encoding.

  What is read from a file is made of characters, and no escape
  of a document stands for a surrogate. So every text in a
  document has an encoding, and with it the unit of indentation
  that the settings may hold.

  Key definitions include:
    * `ExperimentScript.Text.IsEncodable`
    * `ExperimentScript.Toml.Value.IsEncodable`
    * `ExperimentScript.Toml.Keeps`

  Main declarations:
    * `ExperimentScript.Toml.isEncodable_of_decode`
    * `ExperimentScript.Settings.isEncodable_of_nearest`
-/

namespace ExperimentScript

------------------------------------------------------------
-- Texts
------------------------------------------------------------

/- A code point that is no surrogate. -/
def CodePoint.IsCharacter (c : CodePoint) : Prop :=
  ∃ character, c = .char character

namespace Text

/- A text without surrogates. -/
def IsEncodable (text : Text) : Prop :=
  ∀ c ∈ text, c.IsCharacter

theorem isEncodable_nil : IsEncodable [] :=
  fun _ hMem => absurd hMem List.not_mem_nil

/- The text of a string has an encoding. -/
theorem isEncodable_ofString (string : String) :
    IsEncodable (ofString string) := by
  intro c hMem
  rcases List.mem_map.mp hMem with ⟨character, -, rfl⟩
  exact ⟨character, rfl⟩

variable {text front back : Text}

/- A part of a text has an encoding if the text does. -/
theorem IsEncodable.of_subset
    (hText : text.IsEncodable)
    (hPart : front ⊆ text) :
    front.IsEncodable :=
  fun c hMem => hText c (hPart hMem)

theorem IsEncodable.append
    (hFront : front.IsEncodable)
    (hBack : back.IsEncodable) :
    IsEncodable (front ++ back) :=
  List.forall_mem_append.mpr ⟨hFront, hBack⟩

theorem IsEncodable.cons
    {c : CodePoint}
    (hFirst : c.IsCharacter)
    (hText : text.IsEncodable) :
    IsEncodable (c :: text) :=
  List.forall_mem_cons.mpr ⟨hFirst, hText⟩

/- There is a string for every text that has an encoding. -/
theorem IsEncodable.exists_string
    (hText : text.IsEncodable) :
    ∃ string, text.toString? = some string := by
  have hCharacters :
      ∃ characters,
        text.mapM CodePoint.toChar? = some characters := by
    induction text with
    | nil => exact ⟨[], rfl⟩
    | cons c text ih =>
        rcases List.forall_mem_cons.mp hText with
          ⟨⟨character, rfl⟩, hRest⟩
        rcases ih hRest with ⟨characters, hRest⟩
        refine ⟨character :: characters, ?_⟩
        rw [List.mapM_cons, hRest]
        rfl
  rcases hCharacters with ⟨characters, hCharacters⟩
  exact ⟨.ofList characters, by rw [toString?, hCharacters]; rfl⟩

end Text

------------------------------------------------------------
-- Values
------------------------------------------------------------

/- A value whose texts, apart from names of fields, have an encoding. -/
inductive Toml.Value.IsEncodable : Toml.Value → Prop where
  | bool (value : Bool) : IsEncodable (.bool value)
  | int (value : Int) : IsEncodable (.int value)
  | float (value : Binary64) : IsEncodable (.float value)
  | text
      {value : Text}
      (hText : value.IsEncodable) :
      IsEncodable (.text value)
  | moment (written : Text) : IsEncodable (.moment written)
  | list
      {items : List Toml.Value}
      (hItems : ∀ item ∈ items, IsEncodable item) :
      IsEncodable (.list items)
  | map
      {fields : List (Text × Toml.Value)}
      (hFields : ∀ field ∈ fields, IsEncodable field.2) :
      IsEncodable (.map fields)

namespace Fields

/- Fields with such values. -/
def AreEncodable (fields : Fields Toml.Value) : Prop :=
  ∀ field ∈ fields, field.2.IsEncodable

variable {fields : Fields Toml.Value}
variable {name : Text}
variable {value : Toml.Value}

theorem areEncodable_nil : AreEncodable [] :=
  fun _ hMem => absurd hMem List.not_mem_nil

theorem AreEncodable.set
    (hFields : fields.AreEncodable)
    (hValue : value.IsEncodable)
    (name : Text) :
    (fields.set name value).AreEncodable :=
  forall_mem_set (fun _ (value : Toml.Value) => value.IsEncodable)
    hFields hValue

theorem AreEncodable.get?
    (hFields : fields.AreEncodable)
    (hValue : fields.get? name = some value) :
    value.IsEncodable := by
  rcases List.lookup_eq_some_iff.mp hValue with
    ⟨front, back, rfl, -⟩
  exact hFields (name, value) (by simp)

end Fields

namespace Toml

variable {α β : Type}

------------------------------------------------------------
-- What Readers Keep
------------------------------------------------------------

/-
  From a text that has an encoding a reader goes on to one
  that does, and gives something good.
-/
def Keeps
    (reader : Reader α)
    (good : α → Prop) : Prop :=
  ∀ text result rest,
    text.IsEncodable →
      reader text = .ok (result, rest) →
        good result ∧ rest.IsEncodable

namespace Keeps

variable {good : α → Prop}

theorem pure
    {result : α}
    (hGood : good result) :
    Keeps (Pure.pure result) good := by
  intro text given rest hText hGiven
  cases hGiven
  exact ⟨hGood, hText⟩

theorem throw (failure : Failure) :
    Keeps (MonadExcept.throw failure : Reader α) good := by
  intro text given rest hText hGiven
  cases hGiven

theorem malformed : Keeps (malformed : Reader α) good :=
  throw .malformed

theorem bind
    {between : β → Prop}
    {first : Reader β}
    {second : β → Reader α}
    (hFirst : Keeps first between)
    (hSecond : ∀ result, between result → Keeps (second result) good) :
    Keeps (first >>= second) good := by
  intro text given rest hText hGiven
  simp only [Bind.bind, StateT.bind, Except.bind] at hGiven
  cases hStep : first text with
  | error failure =>
      rw [hStep] at hGiven
      cases hGiven
  | ok pair =>
      rcases pair with ⟨result, left⟩
      rw [hStep] at hGiven
      rcases hFirst text result left hText hStep with
        ⟨hResult, hLeft⟩
      exact hSecond result hResult left given rest hLeft hGiven

theorem get : Keeps (MonadState.get : Reader Text) Text.IsEncodable := by
  intro text given rest hText hGiven
  cases hGiven
  exact ⟨hText, hText⟩

theorem set
    {text : Text}
    (hText : text.IsEncodable) :
    Keeps (MonadStateOf.set text : Reader PUnit) fun _ => True := by
  intro before given rest _ hGiven
  cases hGiven
  exact ⟨trivial, hText⟩

/- A step that leaves a part of the text. -/
theorem modify
    {change : Text → Text}
    (hChange : ∀ text, change text ⊆ text) :
    Keeps (modify change : Reader PUnit) fun _ => True := by
  intro text given rest hText hGiven
  cases hGiven
  exact ⟨trivial, hText.of_subset (hChange text)⟩

end Keeps

------------------------------------------------------------
-- Basic Steps
------------------------------------------------------------

theorem keeps_peek? :
    Keeps peek? fun next => ∀ c ∈ next, c.IsCharacter :=
  .bind .get fun _ hText =>
    .pure fun c hFirst => hText c (List.mem_of_head? hFirst)

theorem keeps_skip (count : Nat) :
    Keeps (skip count) fun _ => True :=
  .modify fun text => List.drop_subset count text

theorem keeps_accept (expected : Text) :
    Keeps (accept expected) fun _ => True := by
  refine .bind .get fun text hText => ?_
  split
  · exact .bind (.set (hText.of_subset (List.drop_subset _ text)))
      fun _ _ => .pure trivial
  · exact .pure trivial

theorem keeps_expect (expected : Text) :
    Keeps (expect expected) fun _ => True := by
  refine .bind (keeps_accept expected) fun accepted _ => ?_
  split
  · exact .pure trivial
  · exact .malformed

theorem keeps_takeWhile (among : CodePoint → Bool) :
    Keeps (takeWhile among) Text.IsEncodable :=
  .bind .get fun text hText =>
    .bind (.set (hText.of_subset (List.drop_subset _ text)))
      fun _ _ =>
        .pure (hText.of_subset (List.takeWhile_subset among))

theorem keeps_skipBlanks : Keeps skipBlanks fun _ => True :=
  .modify fun _ => List.dropWhile_subset isBlank

theorem keeps_skipComment : Keeps skipComment fun _ => True := by
  refine .bind (keeps_accept _) fun accepted _ => ?_
  split
  · refine .bind (keeps_takeWhile _) fun taken _ => ?_
    split
    · exact .pure trivial
    · exact .malformed
  · exact .pure trivial

------------------------------------------------------------
-- Strings
------------------------------------------------------------

theorem isCharacter_of_escape?
    {c letter : CodePoint}
    (hEscape : escape? letter = some c) :
    c.IsCharacter := by
  unfold escape? at hEscape
  split at hEscape
  all_goals first
    | cases hEscape
      exact ⟨_, rfl⟩
    | cases hEscape

/- A number that is no surrogate's is a character's. -/
theorem isCharacter_ofNat
    {n : Nat}
    (hNumber : n < 0xD800 ∨ 0xE000 ≤ n) :
    (CodePoint.ofNat n).IsCharacter := by
  rw [CodePoint.ofNat, dif_neg (by omega)]
  exact ⟨_, rfl⟩

theorem keeps_hexCharacter (count : Nat) :
    Keeps (hexCharacter count) CodePoint.IsCharacter := by
  refine .bind .get fun text hText => ?_
  dsimp only
  split
  · rename_i hDigits
    simp only [Bool.and_eq_true, Bool.or_eq_true,
      decide_eq_true_eq] at hDigits
    exact .bind (keeps_skip count) fun _ _ =>
      .pure (isCharacter_ofNat (hDigits.2.imp_right And.left))
  · exact .malformed

theorem isEncodable_singleton
    {c : CodePoint}
    (hCharacter : c.IsCharacter) :
    Text.IsEncodable [c] :=
  .cons hCharacter Text.isEncodable_nil

theorem keeps_escape (multiline : Bool) :
    Keeps (escape multiline) Text.IsEncodable := by
  refine .bind keeps_peek? fun next _ => ?_
  split
  · refine .bind (keeps_skip 1) fun _ _ => ?_
    exact .bind (keeps_hexCharacter 4) fun c hCharacter =>
      .pure (isEncodable_singleton hCharacter)
  · refine .bind (keeps_skip 1) fun _ _ => ?_
    exact .bind (keeps_hexCharacter 8) fun c hCharacter =>
      .pure (isEncodable_singleton hCharacter)
  · split
    · refine .bind keeps_skipBlanks fun _ _ => ?_
      refine .bind .get fun text _ => ?_
      split
      · exact .pure Text.isEncodable_nil
      · refine .bind (keeps_expect _) fun _ _ => ?_
        exact .bind (.modify fun _ => List.dropWhile_subset _)
          fun _ _ => .pure Text.isEncodable_nil
    · split
      · rename_i hEscape
        exact .bind (keeps_skip 1) fun _ _ =>
          .pure
            (isEncodable_singleton (isCharacter_of_escape? hEscape))
      · exact .malformed
  · exact .malformed

theorem keeps_basicString
    (multiline : Bool)
    (fuel : Nat) :
    Keeps (basicString multiline fuel) Text.IsEncodable := by
  induction fuel with
  | zero => exact .malformed
  | succ fuel ih =>
      refine .bind (keeps_accept _) fun accepted _ => ?_
      split
      · exact .pure Text.isEncodable_nil
      · refine .bind keeps_peek? fun next hNext => ?_
        split
        · exact .malformed
        · rename_i c
          refine .bind (keeps_skip 1) fun _ _ => ?_
          split
          · refine .bind (keeps_escape multiline) fun first hFirst => ?_
            exact .bind ih fun rest hRest =>
              .pure (hFirst.append hRest)
          · split
            · exact .bind ih fun rest hRest =>
                .pure (.cons (hNext c rfl) hRest)
            · exact .malformed

theorem keeps_literalString
    (multiline : Bool)
    (fuel : Nat) :
    Keeps (literalString multiline fuel) Text.IsEncodable := by
  induction fuel with
  | zero => exact .malformed
  | succ fuel ih =>
      refine .bind (keeps_accept _) fun accepted _ => ?_
      split
      · exact .pure Text.isEncodable_nil
      · refine .bind keeps_peek? fun next hNext => ?_
        split
        · exact .malformed
        · rename_i c
          refine .bind (keeps_skip 1) fun _ _ => ?_
          split
          · exact .bind ih fun rest hRest =>
              .pure (.cons (hNext c rfl) hRest)
          · exact .malformed

theorem keeps_extraQuotes
    {quote : Text}
    (hQuote : quote.IsEncodable) :
    Keeps (extraQuotes quote) Text.IsEncodable := by
  refine .bind (keeps_accept quote) fun accepted _ => ?_
  split
  · refine .bind (keeps_accept quote) fun again _ => ?_
    split
    · exact .pure (hQuote.append hQuote)
    · exact .pure hQuote
  · exact .pure Text.isEncodable_nil

/- A string has an encoding, whatever is escaped in it. -/
theorem keeps_string : Keeps string Text.IsEncodable := by
  refine .bind .get fun text _ => ?_
  refine .bind (keeps_accept _) fun accepted _ => ?_
  split
  · refine .bind (keeps_accept _) fun _ _ => ?_
    refine .bind (keeps_basicString true _) fun body hBody => ?_
    exact .bind (keeps_extraQuotes (Text.isEncodable_ofString _))
      fun quotes hQuotes => .pure (hBody.append hQuotes)
  · refine .bind (keeps_accept _) fun accepted _ => ?_
    split
    · refine .bind (keeps_accept _) fun _ _ => ?_
      refine .bind (keeps_literalString true _) fun body hBody => ?_
      exact .bind (keeps_extraQuotes (Text.isEncodable_ofString _))
        fun quotes hQuotes => .pure (hBody.append hQuotes)
    · refine .bind (keeps_accept _) fun accepted _ => ?_
      split
      · exact keeps_basicString false _
      · exact .bind (keeps_expect _) fun _ _ =>
          keeps_literalString false _

------------------------------------------------------------
-- Keys And Numbers
------------------------------------------------------------

theorem keeps_keyPart : Keeps keyPart fun _ => True := by
  have hAny {reader : Reader Text}
      (hReader : Keeps reader Text.IsEncodable) :
      Keeps reader fun _ => True :=
    fun text result rest hText hGiven =>
      ⟨trivial, (hReader text result rest hText hGiven).2⟩
  refine .bind keeps_peek? fun next _ => ?_
  split
  · refine .bind .get fun text _ => ?_
    split
    · exact hAny (keeps_takeWhile _)
    · refine .bind (keeps_accept _) fun accepted _ => ?_
      split
      · exact hAny (keeps_basicString false _)
      · refine .bind (keeps_accept _) fun accepted _ => ?_
        split
        · exact hAny (keeps_literalString false _)
        · exact .malformed
  · exact .malformed

theorem keeps_keyParts (fuel : Nat) :
    Keeps (keyParts fuel) fun _ => True := by
  induction fuel with
  | zero => exact .malformed
  | succ fuel ih =>
      refine .bind keeps_keyPart fun first _ => ?_
      refine .bind keeps_skipBlanks fun _ _ => ?_
      refine .bind (keeps_accept _) fun accepted _ => ?_
      split
      · refine .bind keeps_skipBlanks fun _ _ => ?_
        exact .bind ih fun rest _ => .pure trivial
      · exact .pure trivial

theorem keeps_key : Keeps key fun _ => True :=
  .bind .get fun _ _ => keeps_keyParts _

theorem isEncodable_of_baseNumber?
    {text written : Text}
    {value : Value}
    (hNumber : baseNumber? text = some (written, value)) :
    value.IsEncodable := by
  unfold baseNumber? at hNumber
  extract_lets read isBelow at hNumber
  have hRead (base : Nat) (isDigit : CodePoint → Bool)
      (hGiven : read base isDigit = some (written, value)) :
      value.IsEncodable := by
    dsimp only [read] at hGiven
    split at hGiven
    · cases hGiven
    · cases hGiven
      exact .int _
  split at hNumber
  · exact hRead _ _ hNumber
  · exact hRead _ _ hNumber
  · exact hRead _ _ hNumber
  · cases hNumber

theorem isEncodable_of_decimalNumber?
    {text written : Text}
    {value : Value}
    (hNumber : decimalNumber? text = some (written, .ok value)) :
    value.IsEncodable := by
  unfold decimalNumber? at hNumber
  extract_lets at hNumber
  split at hNumber
  · cases hNumber
  · split at hNumber
    · split at hNumber
      · simp only [Option.some.injEq, Prod.mk.injEq, reduceCtorEq,
          and_false] at hNumber
      · simp only [Option.some.injEq, Prod.mk.injEq,
          Except.ok.injEq] at hNumber
        exact hNumber.2 ▸ .int _
    · simp only [Option.some.injEq, Prod.mk.injEq,
        Except.ok.injEq] at hNumber
      exact hNumber.2 ▸ .float _

theorem keeps_number : Keeps number Value.IsEncodable := by
  refine .bind .get fun text _ => ?_
  split
  · rename_i hNumber
    exact .bind (keeps_skip _) fun _ _ =>
      .pure (isEncodable_of_baseNumber? hNumber)
  · split
    · rename_i written outcome hNumber
      refine .bind (keeps_skip _) fun _ _ => ?_
      cases outcome with
      | error failure => exact .throw failure
      | ok value =>
          exact .pure (isEncodable_of_decimalNumber? hNumber)
    · split
      · exact .bind (keeps_skip _) fun _ _ => .pure (.float _)
      · exact .malformed

section Moments

variable {text rest : Text}

theorem after?_suffix
    {among : CodePoint → Bool}
    (hRest : after? among text = some rest) :
    rest <:+ text := by
  unfold after? at hRest
  split at hRest
  · split at hRest
    · cases hRest
      exact List.suffix_cons _ _
    · cases hRest
  · cases hRest

theorem numeral?_suffix
    {count low high number : Nat}
    (hRest : numeral? count low high text = some (number, rest)) :
    rest <:+ text := by
  unfold numeral? at hRest
  dsimp only at hRest
  split at hRest
  · cases hRest
    exact List.drop_suffix _ _
  · cases hRest

theorem afterFraction_suffix (text : Text) :
    afterFraction text <:+ text := by
  unfold afterFraction
  split
  · split
    · exact
        (List.dropWhile_suffix _).trans
          ((List.suffix_cons _ _).trans
            (List.suffix_cons _ _))
    · exact List.suffix_refl _
  · exact List.suffix_refl _

theorem afterTime?_suffix
    (hRest : afterTime? text = some rest) :
    rest <:+ text := by
  simp only [afterTime?, bind, Option.bind_eq_some_iff] at hRest
  rcases hRest with
    ⟨hours, hHours, minutes, hMinutes, _, hMinute, seconds,
      hSeconds, _, hSecond, hRest⟩
  cases hRest
  exact (afterFraction_suffix _).trans
    ((numeral?_suffix hSecond).trans
      ((after?_suffix hSeconds).trans
        ((numeral?_suffix hMinute).trans
          ((after?_suffix hMinutes).trans (numeral?_suffix hHours)))))

theorem afterOffset?_suffix
    (hRest : afterOffset? text = some rest) :
    rest <:+ text := by
  unfold afterOffset? at hRest
  split at hRest
  · cases hRest
    exact List.suffix_cons _ _
  · cases hRest
    exact List.suffix_cons _ _
  · simp only [bind, Option.bind_eq_some_iff] at hRest
    rcases hRest with
      ⟨hours, hSign, _, hHours, minutes, hMinutes, _, hMinute, hRest⟩
    cases hRest
    exact (numeral?_suffix hMinute).trans
      ((after?_suffix hMinutes).trans
        ((numeral?_suffix hHours).trans (after?_suffix hSign)))

theorem date?_suffix
    {date : Date}
    (hRest : date? text = some (date, rest)) :
    rest <:+ text := by
  simp only [date?, bind, Option.bind_eq_some_iff] at hRest
  rcases hRest with
    ⟨_, hYear, months, hMonths, _, hMonth, days, hDays, _, hDay,
      hRest⟩
  cases hRest
  exact (numeral?_suffix hDay).trans
    ((after?_suffix hDays).trans
      ((numeral?_suffix hMonth).trans
        ((after?_suffix hMonths).trans (numeral?_suffix hYear))))

theorem afterDateTime_suffix (text : Text) :
    afterDateTime text <:+ text := by
  unfold afterDateTime
  dsimp only
  split
  · exact List.suffix_refl _
  · rename_i rest hTime
    rcases Option.bind_eq_some_iff.mp hTime with
      ⟨time, hMark, hTime⟩
    have hRest := (afterTime?_suffix hTime).trans (after?_suffix hMark)
    cases hOffset : afterOffset? rest with
    | none => exact hRest
    | some last => exact (afterOffset?_suffix hOffset).trans hRest

/- What stands after a moment is the end of the text. -/
theorem afterMoment?_suffix
    {valid : Bool}
    (hRest : afterMoment? text = some (valid, rest)) :
    rest <:+ text := by
  unfold afterMoment? at hRest
  split at hRest
  · rename_i hDate
    cases hRest
    exact (afterDateTime_suffix _).trans (date?_suffix hDate)
  · rcases Option.map_eq_some_iff.mp hRest with ⟨_, hTime, hRest⟩
    cases hRest
    exact afterTime?_suffix hTime

end Moments

theorem keeps_momentOrNumber :
    Keeps momentOrNumber Value.IsEncodable := by
  refine .bind .get fun text hText => ?_
  split
  · exact keeps_number
  · rename_i valid rest hMoment
    have hRest := hText.of_subset (afterMoment?_suffix hMoment).subset
    cases valid with
    | false => exact .malformed
    | true =>
        exact .bind (.set hRest) fun _ _ => .pure (.moment _)

------------------------------------------------------------
-- Tables
------------------------------------------------------------

section Tables

variable {change : Fields Value → Option (Fields Value)}

/- A change that keeps the fields of a table keeps those above it. -/
theorem areEncodable_updateAt
    (throughLists : Bool)
    (hChange :
      ∀ fields after,
        Fields.AreEncodable fields →
          change fields = some after → Fields.AreEncodable after)
    (path : List Text)
    {fields after : Fields Value}
    (hFields : fields.AreEncodable)
    (hAfter : updateAt throughLists change path fields = some after) :
    after.AreEncodable := by
  induction path generalizing fields after with
  | nil => exact hChange fields after hFields hAfter
  | cons name path ih =>
      rw [updateAt] at hAfter
      split at hAfter
      · rcases Option.bind_eq_some_iff.mp hAfter with
          ⟨inner, hInner, hAfter⟩
        cases hAfter
        exact hFields.set (.map (ih Fields.areEncodable_nil hInner)) _
      · rename_i old hOld
        rcases Option.bind_eq_some_iff.mp hAfter with
          ⟨inner, hInner, hAfter⟩
        cases hAfter
        cases hFields.get? hOld with
        | map hOld => exact hFields.set (.map (ih hOld hInner)) _
      · rename_i items hItems
        split at hAfter
        · rename_i old hLast
          rcases Option.bind_eq_some_iff.mp hAfter with
            ⟨inner, hInner, hAfter⟩
          cases hAfter
          cases hFields.get? hItems with
          | list hItems =>
              refine hFields.set (.list fun item hItem => ?_) _
              rcases List.mem_append.mp hItem with hItem | hItem
              · exact hItems item (List.dropLast_subset _ hItem)
              · rw [List.mem_singleton.mp hItem]
                cases hItems _ (List.mem_of_getLast? hLast) with
                | map hOld => exact .map (ih hOld hInner)
        · cases hAfter
      · cases hAfter

theorem areEncodable_insertNew
    {name : Text}
    {value : Value}
    (hValue : value.IsEncodable)
    (fields after : Fields Value)
    (hFields : fields.AreEncodable)
    (hAfter : insertNew name value fields = some after) :
    after.AreEncodable := by
  unfold insertNew at hAfter
  split at hAfter
  · cases hAfter
  · cases hAfter
    exact List.forall_mem_append.mpr
      ⟨hFields, List.forall_mem_singleton.mpr hValue⟩

end Tables

------------------------------------------------------------
-- Values
------------------------------------------------------------

theorem keeps_skipArrayBlanks (fuel : Nat) :
    Keeps (skipArrayBlanks fuel) fun _ => True := by
  induction fuel with
  | zero => exact .pure trivial
  | succ fuel ih =>
      refine .bind (.modify fun _ => List.dropWhile_subset _)
        fun _ _ => ?_
      refine .bind keeps_peek? fun next _ => ?_
      split
      · exact .bind keeps_skipComment fun _ _ => ih
      · exact .pure trivial

section Containers

variable {reader : Reader Value}
variable (hReader : Keeps reader Value.IsEncodable)

include hReader

theorem keeps_keyValue :
    Keeps (keyValue reader) fun entry => entry.2.IsEncodable := by
  refine .bind keeps_key fun path _ => ?_
  refine .bind (keeps_expect _) fun _ _ => ?_
  refine .bind keeps_skipBlanks fun _ _ => ?_
  exact .bind hReader fun item hItem => .pure hItem

theorem keeps_arrayItems (fuel : Nat) :
    Keeps (arrayItems reader fuel)
      fun items => ∀ item ∈ items, Value.IsEncodable item := by
  induction fuel with
  | zero => exact .malformed
  | succ fuel ih =>
      refine .bind .get fun text _ => ?_
      refine .bind (keeps_skipArrayBlanks _) fun _ _ => ?_
      refine .bind (keeps_accept _) fun accepted _ => ?_
      split
      · exact .pure fun _ hItem => absurd hItem List.not_mem_nil
      · refine .bind hReader fun item hItem => ?_
        refine .bind .get fun text _ => ?_
        refine .bind (keeps_skipArrayBlanks _) fun _ _ => ?_
        refine .bind (keeps_accept _) fun accepted _ => ?_
        split
        · exact .pure (List.forall_mem_singleton.mpr hItem)
        · refine .bind (keeps_expect _) fun _ _ => ?_
          exact .bind ih fun items hItems =>
            .pure (List.forall_mem_cons.mpr ⟨hItem, hItems⟩)

theorem keeps_tableEntries
    (fuel : Nat)
    (frozen : List (List Text))
    {before : Fields Value}
    (hBefore : before.AreEncodable) :
    Keeps (tableEntries reader fuel frozen before)
      Fields.AreEncodable := by
  induction fuel generalizing frozen before with
  | zero => exact .malformed
  | succ fuel ih =>
      refine .bind (keeps_keyValue hReader) fun entry hEntry => ?_
      dsimp only
      split
      · exact .malformed
      · split
        · exact .malformed
        · rename_i after hAfter
          have hFields :=
            areEncodable_updateAt false
              (areEncodable_insertNew hEntry) _ hBefore hAfter
          refine .bind keeps_skipBlanks fun _ _ => ?_
          refine .bind (keeps_accept _) fun accepted _ => ?_
          split
          · exact .pure hFields
          · refine .bind (keeps_expect _) fun _ _ => ?_
            exact .bind keeps_skipBlanks fun _ _ => ih _ hFields

end Containers

/- A value is made of texts that have an encoding. -/
theorem keeps_value (depth : Nat) :
    Keeps (value depth) Value.IsEncodable := by
  induction depth with
  | zero => exact .throw .nestedTooDeeply
  | succ depth ih =>
      refine .bind keeps_peek? fun next _ => ?_
      split
      · exact .bind keeps_string fun text hText => .pure (.text hText)
      · exact .bind keeps_string fun text hText => .pure (.text hText)
      · refine .bind (keeps_skip 1) fun _ _ => ?_
        refine .bind .get fun text _ => ?_
        exact .bind (keeps_arrayItems ih _) fun items hItems =>
          .pure (.list hItems)
      · refine .bind (keeps_skip 1) fun _ _ => ?_
        refine .bind keeps_skipBlanks fun _ _ => ?_
        refine .bind (keeps_accept _) fun accepted _ => ?_
        split
        · exact .pure (.map Fields.areEncodable_nil)
        · refine .bind .get fun text _ => ?_
          exact .bind
            (keeps_tableEntries ih _ [] Fields.areEncodable_nil)
            fun fields hFields => .pure (.map hFields)
      · refine .bind (keeps_accept _) fun accepted _ => ?_
        split
        · exact .pure (.bool _)
        · refine .bind (keeps_accept _) fun accepted _ => ?_
          split
          · exact .pure (.bool _)
          · exact keeps_momentOrNumber

------------------------------------------------------------
-- Documents
------------------------------------------------------------

namespace Document

variable {document after : Document}
variable {path : List Text}

theorem areEncodable_openTable
    (hDocument : document.fields.AreEncodable)
    (hAfter : document.openTable path = some after) :
    after.fields.AreEncodable := by
  unfold openTable at hAfter
  dsimp only at hAfter
  split at hAfter
  · cases hAfter
  · rcases Option.bind_eq_some_iff.mp hAfter with
      ⟨fields, hFields, hAfter⟩
    cases hAfter
    refine areEncodable_updateAt true ?_ path hDocument hFields
    rintro before _ hBefore ⟨⟩
    exact hBefore

theorem areEncodable_appendTable
    (name : Text)
    (fields after : Fields Value)
    (hFields : fields.AreEncodable)
    (hAfter : appendTable name fields = some after) :
    after.AreEncodable := by
  have hEmpty : Value.IsEncodable (.map []) :=
    .map Fields.areEncodable_nil
  unfold appendTable at hAfter
  split at hAfter
  · cases hAfter
    exact hFields.set (.list (List.forall_mem_singleton.mpr hEmpty)) _
  · rename_i items hItems
    cases hAfter
    cases hFields.get? hItems with
    | list hItems =>
        exact hFields.set
          (.list
            (List.forall_mem_append.mpr
              ⟨hItems, List.forall_mem_singleton.mpr hEmpty⟩)) _
  · cases hAfter

theorem areEncodable_openListTable
    (hDocument : document.fields.AreEncodable)
    (hAfter : document.openListTable path = some after) :
    after.fields.AreEncodable := by
  unfold openListTable at hAfter
  dsimp only at hAfter
  split at hAfter
  · cases hAfter
  · rcases Option.bind_eq_some_iff.mp hAfter with
      ⟨fields, hFields, hAfter⟩
    cases hAfter
    exact areEncodable_updateAt true (areEncodable_appendTable _) _
      hDocument hFields

theorem areEncodable_insert
    {value : Value}
    (hDocument : document.fields.AreEncodable)
    (hValue : value.IsEncodable)
    (hAfter : document.insert path value = some after) :
    after.fields.AreEncodable := by
  unfold insert at hAfter
  dsimp only at hAfter
  split at hAfter
  · cases hAfter
  · split at hAfter
    · cases hAfter
    · rcases Option.bind_eq_some_iff.mp hAfter with
        ⟨fields, hFields, hAfter⟩
      cases hAfter
      exact areEncodable_updateAt true (areEncodable_insertNew hValue)
        _ hDocument hFields

end Document

theorem unifyPairs_subset (text : Text) : unifyPairs text ⊆ text := by
  induction text using unifyPairs.induct with
  | case1 rest ih =>
      rw [unifyPairs]
      exact List.cons_subset.mpr
        ⟨by simp, fun _ hMem =>
          List.mem_cons_of_mem _ (List.mem_cons_of_mem _ (ih hMem))⟩
  | case2 c rest hOther ih =>
      rw [unifyPairs.eq_2 c rest hOther]
      exact List.cons_subset_cons c ih
  | case3 => exact List.Subset.refl _

theorem keeps_orMalformed
    {document? : Option Document}
    (hDocument :
      ∀ document,
        document? = some document → document.fields.AreEncodable) :
    Keeps (orMalformed document?) fun document =>
      document.fields.AreEncodable := by
  cases document? with
  | none => exact .malformed
  | some document => exact .pure (hDocument document rfl)

variable [Room]

theorem keeps_statement
    {document : Document}
    (hDocument : document.fields.AreEncodable) :
    Keeps (statement document) fun after =>
      after.fields.AreEncodable := by
  refine .bind keeps_peek? fun next _ => ?_
  split
  · refine .bind (keeps_accept _) fun accepted _ => ?_
    split
    · refine .bind keeps_skipBlanks fun _ _ => ?_
      refine .bind keeps_key fun path _ => ?_
      refine .bind
        (keeps_orMalformed fun _ hAfter =>
          Document.areEncodable_openListTable hDocument hAfter)
        fun after hFields => ?_
      exact .bind (keeps_expect _) fun _ _ => .pure hFields
    · refine .bind (keeps_skip 1) fun _ _ => ?_
      refine .bind keeps_skipBlanks fun _ _ => ?_
      refine .bind keeps_key fun path _ => ?_
      refine .bind
        (keeps_orMalformed fun _ hAfter =>
          Document.areEncodable_openTable hDocument hAfter)
        fun after hFields => ?_
      exact .bind (keeps_expect _) fun _ _ => .pure hFields
  · exact .pure hDocument
  · split
    · refine .bind (keeps_keyValue (keeps_value _))
        fun entry hEntry => ?_
      exact keeps_orMalformed fun _ hAfter =>
        Document.areEncodable_insert hDocument hEntry hAfter
    · exact .malformed
  · exact .pure hDocument

theorem keeps_statements
    (fuel : Nat)
    {document : Document}
    (hDocument : document.fields.AreEncodable) :
    Keeps (statements fuel document) fun after =>
      after.fields.AreEncodable := by
  induction fuel generalizing document with
  | zero => exact .pure hDocument
  | succ fuel ih =>
      refine .bind keeps_skipBlanks fun _ _ => ?_
      refine .bind (keeps_accept _) fun accepted _ => ?_
      split
      · exact ih hDocument
      · refine .bind (keeps_statement hDocument) fun after hAfter => ?_
        refine .bind keeps_skipBlanks fun _ _ => ?_
        refine .bind keeps_skipComment fun _ _ => ?_
        refine .bind .get fun text _ => ?_
        split
        · exact .pure hAfter
        · exact .bind (keeps_expect _) fun _ _ => ih hAfter

/- The texts in a document have an encoding if the document does. -/
theorem isEncodable_of_decode
    {text : Text}
    {document : Fields Value}
    (hText : text.IsEncodable)
    (hDocument : decode text = .ok document) :
    document.AreEncodable := by
  have hSource := hText.of_subset (unifyPairs_subset text)
  simp only [decode, bind, Except.bind, StateT.run', Functor.map,
    Except.map] at hDocument
  split at hDocument
  · cases hDocument
  · rename_i found hFound
    split at hFound
    · cases hFound
    · rename_i pair hRead
      cases hFound
      cases hDocument
      exact
        (keeps_statements _ Fields.areEncodable_nil _ pair.1 pair.2
          hSource hRead).1

end Toml

------------------------------------------------------------
-- Settings
------------------------------------------------------------

/- The text of a file has an encoding. -/
theorem FileTree.isEncodable_readRaw
    {tree : FileTree}
    {path : Path}
    {text : Text}
    (hText : tree.readRaw path = .ok text) :
    text.IsEncodable := by
  simp only [readRaw, bind, Except.bind] at hText
  split at hText
  · cases hText
  · split at hText
    · cases hText
      exact Text.isEncodable_ofString _
    · cases hText

/- A success is what it was before failures were changed. -/
theorem eq_ok_of_mapError
    {ε ε' α : Type}
    {change : ε → ε'}
    {outcome : Except ε α}
    {result : α}
    (hResult : outcome.mapError change = .ok result) :
    outcome = .ok result := by
  cases outcome with
  | error failure => cases hResult
  | ok given =>
      cases hResult
      rfl

namespace Settings

/- A section of a document with encodable texts has such texts. -/
theorem areEncodable_sectionOf
    {document fields : Fields Toml.Value}
    {name : Text}
    (hDocument : document.AreEncodable)
    (hFields : sectionOf document name = .ok fields) :
    fields.AreEncodable := by
  unfold sectionOf at hFields
  split at hFields
  · cases hFields
    exact Fields.areEncodable_nil
  · rename_i inner hInner
    cases hFields
    cases hDocument.get? hInner with
    | map hInner => exact hInner
  · cases hFields

theorem isEncodable_ofDocument
    {document : Fields Toml.Value}
    {settings : Settings}
    (hDocument : document.AreEncodable)
    (hSettings : ofDocument document = .ok settings) :
    settings.outputIndent.IsEncodable := by
  simp only [ofDocument, bind, Except.bind] at hSettings
  split at hSettings
  · cases hSettings
  · split at hSettings
    · cases hSettings
    · rename_i output hOutput
      split at hSettings
      · cases hSettings
      · cases hSettings
        dsimp only
        cases hIndent : output.get? "indent" with
        | none => exact .int 2
        | some indent =>
            exact
              (areEncodable_sectionOf hDocument hOutput).get? hIndent

/- The indent that settings give to compiled scripts has an encoding. -/
theorem isEncodable_of_nearest
    [Room]
    {tree : FileTree}
    {path : Path}
    {settings : Settings}
    (hSettings : nearest tree path = .ok settings) :
    settings.outputIndent.IsEncodable := by
  rcases exists_of_bind_eq_ok hSettings with ⟨file?, -, hSettings⟩
  cases file? with
  | none =>
      cases hSettings
      exact .int 2
  | some file =>
      rcases exists_of_bind_eq_ok hSettings with
        ⟨text, hText, hSettings⟩
      rcases exists_of_bind_eq_ok hSettings with
        ⟨document, hDocument, hSettings⟩
      exact
        isEncodable_ofDocument
          (Toml.isEncodable_of_decode
            (FileTree.isEncodable_readRaw (eq_ok_of_mapError hText))
            (eq_ok_of_mapError hDocument))
          hSettings

end Settings

end ExperimentScript
