import ExperimentScript.Json.Writer
import ExperimentScript.Proofs.Format.Constant
import ExperimentScript.Proofs.Json.Number

/-
  Constants as JSON text and back.

  Whatever blanks a layout sets between the items, the text of
  a constant is read as the constant, field for field, as far
  as its lists and maps nest no deeper than the reader goes.
  The text is made of ASCII characters.

  Key definitions include:
    * `ExperimentScript.Value.isUnpaired`
    * `ExperimentScript.Json.Layout.IsBlank`
    * `ExperimentScript.Json.Reads`

  Main declarations:
    * `ExperimentScript.Json.covers_write`
    * `ExperimentScript.Json.isAscii_write`
    * `ExperimentScript.Json.decode_write`
-/

namespace ExperimentScript

------------------------------------------------------------
-- Constants
------------------------------------------------------------

namespace Value

mutual

/-
  Whether no text of a constant, the names of fields included,
  has a high surrogate just before a low one.
-/
def isUnpaired : Value → Bool
  | .text content => Text.isUnpaired content
  | .list items => areUnpaired items
  | .map fields => haveUnpaired fields
  | _ => true

/- Whether this holds of all of some constants. -/
def areUnpaired : List Value → Bool
  | [] => true
  | item :: items => isUnpaired item && areUnpaired items

/- Whether this holds of some fields. -/
def haveUnpaired : List (Text × Value) → Bool
  | [] => true
  | (name, value) :: fields =>
    Text.isUnpaired name && isUnpaired value && haveUnpaired fields

end

theorem areBounded_iff (items : List Value) :
    areBounded items = true ↔
      ∀ item ∈ items, item.isBounded = true := by
  induction items with
  | nil => simp [areBounded]
  | cons item items ih => simp [areBounded, ih]

theorem areUnpaired_iff (items : List Value) :
    areUnpaired items = true ↔
      ∀ item ∈ items, item.isUnpaired = true := by
  induction items with
  | nil => simp [areUnpaired]
  | cons item items ih => simp [areUnpaired, ih]

theorem haveUnpaired_iff (fields : List (Text × Value)) :
    haveUnpaired fields = true ↔
      ∀ entry ∈ fields,
        entry.1.isUnpaired = true ∧ entry.2.isUnpaired = true := by
  induction fields with
  | nil => simp [haveUnpaired]
  | cons entry rest ih => simp [haveUnpaired, ih]

theorem nesting_pos (value : Value) : 0 < value.nesting := by
  cases value <;> simp [nesting]

end Value

namespace Json

open Text (IsAscii)

------------------------------------------------------------
-- Blanks
------------------------------------------------------------

/- A text of blank space between JSON tokens. -/
def AllBlank (text : Text) : Prop :=
  ∀ c ∈ text, isBlank c = true

theorem allBlank_nil : AllBlank [] :=
  fun _ hMem => absurd hMem List.not_mem_nil

/- Blanks before something else are skipped. -/
theorem skipBlanks_append
    {blanks : Text}
    {c : CodePoint}
    (hBlanks : AllBlank blanks)
    (hOther : isBlank c = false)
    (rest : Text) :
    skipBlanks (blanks ++ c :: rest) = .ok ((), c :: rest) := by
  have hSkipped :
      (blanks ++ c :: rest).dropWhile isBlank = c :: rest := by
    rw [List.dropWhile_append_of_pos hBlanks, List.dropWhile_cons,
      hOther]
    rfl
  exact congrArg (fun text => Except.ok ((), text)) hSkipped

theorem skipBlanks_cons
    {c : CodePoint}
    (hOther : isBlank c = false)
    (rest : Text) :
    skipBlanks (c :: rest) = .ok ((), c :: rest) :=
  skipBlanks_append allBlank_nil hOther rest

/- A layout begins lines with a code point. -/
def Layout.Begins
    (layout : Layout)
    (c : CodePoint) : Prop :=
  match layout with
  | .oneLine => False
  | .indented unit => c = '\n' ∨ c ∈ unit

/- A layout sets items apart by blanks only. -/
def Layout.IsBlank : Layout → Prop
  | .oneLine => True
  | .indented unit => AllBlank unit

namespace Layout

variable {layout : Layout}

theorem begins_of_mem_lineStart
    {level : Nat}
    {c : CodePoint}
    (hMem : c ∈ layout.lineStart level) :
    layout.Begins c := by
  cases layout with
  | oneLine => cases hMem
  | indented unit =>
      rcases List.mem_append.mp hMem with hNewline | hUnits
      · exact .inl (List.mem_singleton.mp hNewline)
      · rw [Text.replicate, List.mem_flatten] at hUnits
        rcases hUnits with ⟨text, hText, hIn⟩
        rw [List.eq_of_mem_replicate hText] at hIn
        exact .inr hIn

theorem isBlank_of_begins
    (hLayout : layout.IsBlank)
    {c : CodePoint}
    (hBegins : layout.Begins c) :
    isBlank c = true := by
  cases layout with
  | oneLine => exact hBegins.elim
  | indented unit =>
      rcases hBegins with rfl | hUnit
      · rfl
      · exact hLayout c hUnit

theorem allBlank_lineStart
    (hLayout : layout.IsBlank)
    (level : Nat) :
    AllBlank (layout.lineStart level) :=
  fun _ hMem => isBlank_of_begins hLayout (begins_of_mem_lineStart hMem)

/- Between two items stand a comma and blanks. -/
theorem exists_separator
    (hLayout : layout.IsBlank)
    (level : Nat) :
    ∃ blanks, AllBlank blanks ∧
      layout.separator level = .char ',' :: blanks := by
  cases layout with
  | oneLine =>
      refine ⟨[.char ' '], fun c hMem => ?_, rfl⟩
      cases List.mem_singleton.mp hMem
      rfl
  | indented unit =>
      exact ⟨_, allBlank_lineStart hLayout level, rfl⟩

end Layout

------------------------------------------------------------
-- Steps Of Readers
------------------------------------------------------------

section Steps

variable {α β : Type}
variable {first : Reader α}
variable {text left : Text}

theorem bind_of_ok
    {result : α}
    (hFirst : first text = .ok (result, left))
    (second : α → Reader β) :
    (first >>= second) text = second result left := by
  simp only [bind, StateT.bind, Except.bind, hFirst]

theorem bind_peek? (second : Option CodePoint → Reader β) :
    (peek? >>= second) text = second text.head? text := rfl

theorem bind_get (second : Text → Reader β) :
    (get >>= second) text = second text text := rfl

theorem bind_of_error
    {failure : Failure}
    (hFirst : first text = .error failure)
    (second : α → Reader β) :
    (first >>= second) text = .error failure := by
  simp only [bind, StateT.bind, Except.bind, hFirst]

end Steps

/-
  A reader takes a text to its end, unless something continues
  what is at the end, and gives a result or fails.
-/
def Reads
    (reader : Reader Value)
    (text : Text)
    (result : Except Failure Value) : Prop :=
  ∀ rest : Text, rest.Apart →
    reader (text ++ rest) = result.map fun value => (value, rest)

/- A result that is reached only where the nesting is within the depth. -/
def limited
    {α : Type}
    (depth nesting : Nat)
    (result : α) :
    Except Failure α :=
  if nesting ≤ depth then .ok result
  else .error .nestedTooDeeply

section Limited

variable {α β : Type}
variable {depth nesting : Nat}

theorem limited_of_le
    (hWithin : nesting ≤ depth)
    (result : α) :
    limited depth nesting result = .ok result :=
  if_pos hWithin

theorem limited_of_lt
    (hBeyond : depth < nesting)
    (result : α) :
    limited depth nesting result = .error .nestedTooDeeply :=
  if_neg (Nat.not_le.mpr hBeyond)

/- One limit after another is the limit of the deeper one. -/
theorem limited_max
    {others : Nat}
    (hWithin : nesting ≤ depth)
    (result : α) :
    limited depth (max nesting others) result =
      limited depth others result := by
  simp only [limited, Nat.max_le, hWithin, true_and]

theorem limited_succ (result : α) :
    limited (depth + 1) (nesting + 1) result =
      limited depth nesting result := by
  simp only [limited, Nat.add_le_add_iff_right]

theorem map_limited
    (f : α → β)
    (result : α) :
    (limited depth nesting result).map f =
      limited depth nesting (f result) := by
  unfold limited
  split <;> rfl

/- A result that is changed at the end is limited as before. -/
theorem bind_pure_of_limited
    {reader : Reader α}
    {text left : Text}
    {result : α}
    (hReader :
      reader text = limited depth nesting (result, left))
    (f : α → β) :
    (do return f (← reader) : Reader β) text =
      limited depth nesting (f result, left) := by
  rcases Nat.lt_or_ge depth nesting with hBeyond | hWithin
  · rw [limited_of_lt hBeyond] at hReader ⊢
    exact bind_of_error hReader _
  · rw [limited_of_le hWithin] at hReader ⊢
    exact bind_of_ok hReader _

end Limited

/- A comma, a bracket or blank space does not continue a constant. -/
theorem apart_cons
    {c : CodePoint}
    (hOther : c.continuesName = false ∧ c ≠ '.')
    (rest : Text) :
    Text.Apart (c :: rest) := by
  intro d hMem
  cases hMem
  exact hOther

theorem apart_append
    {blanks rest : Text}
    (hBlanks : AllBlank blanks)
    (hRest : rest.Apart) :
    Text.Apart (blanks ++ rest) := by
  cases blanks with
  | nil => exact hRest
  | cons c blanks =>
      have hBlank := hBlanks c List.mem_cons_self
      simp only [isBlank, Bool.or_eq_true, beq_iff_eq] at hBlank
      refine apart_cons ?_ _
      rcases hBlank with ((rfl | rfl) | rfl) | rfl <;> decide

------------------------------------------------------------
-- The First Code Point
------------------------------------------------------------

/-
  What a written constant begins with: neither blank space nor
  something that closes a list.
-/
def Begins (text : Text) : Prop :=
  ∃ (c : CodePoint) (rest : Text),
    text = c :: rest ∧ isBlank c = false ∧ c ≠ ']'

theorem begins_of_leadsPlain
    {sign text : Text}
    (hSign : sign = [] ∨ sign = "-")
    (hPlain : text.LeadsPlain) :
    Begins (sign ++ text) := by
  rcases hSign with rfl | rfl
  · rcases hPlain with ⟨c, rest, rfl, hDigit, _⟩
    refine ⟨c, rest, rfl, ?_, ?_⟩
    · refine Bool.eq_false_iff.mpr fun hBlank => ?_
      simp only [isBlank, Bool.or_eq_true, beq_iff_eq] at hBlank
      rcases hBlank with ((rfl | rfl) | rfl) | rfl <;> cases hDigit
    · rintro rfl
      cases hDigit
  · exact ⟨.char '-', text, rfl, rfl, by decide⟩

theorem skipBlanks_of_begins
    {blanks text : Text}
    (hBlanks : AllBlank blanks)
    (hBegins : Begins text)
    (rest : Text) :
    skipBlanks (blanks ++ (text ++ rest)) =
      .ok ((), text ++ rest) := by
  rcases hBegins with ⟨c, more, rfl, hOther, _⟩
  exact skipBlanks_append hBlanks hOther (more ++ rest)

theorem begins_write
    (layout : Layout)
    (level : Nat)
    {value : Value}
    (hBounded : value.isBounded = true) :
    Begins (write layout level value) := by
  cases value with
  | null => exact ⟨_, _, rfl, rfl, by decide⟩
  | bool value =>
      cases value
      · exact ⟨_, _, rfl, rfl, by decide⟩
      · exact ⟨_, _, rfl, rfl, by decide⟩
  | int n =>
      rcases Text.exists_leadsPlain_ofInt n with
        ⟨sign, text, hSign, hPlain, hText⟩
      rw [write, hText]
      exact begins_of_leadsPlain hSign hPlain
  | float x =>
      rcases Binary64.exists_leadsPlain_toText hBounded with
        ⟨sign, text, hSign, hPlain, hText⟩
      rw [write, hText]
      exact begins_of_leadsPlain hSign hPlain
  | text text => exact ⟨_, _, quoteAscii_eq text, rfl, by decide⟩
  | list items =>
      cases items with
      | nil => exact ⟨_, _, rfl, rfl, by decide⟩
      | cons item items => exact ⟨_, _, rfl, rfl, by decide⟩
  | map fields =>
      cases fields with
      | nil => exact ⟨_, _, rfl, rfl, by decide⟩
      | cons field fields => exact ⟨_, _, rfl, rfl, by decide⟩

------------------------------------------------------------
-- Items Of Lists
------------------------------------------------------------

section Items

variable {reader : Reader Value}
variable {front text left rest : Text}
variable {item : Value}

/- An item before a comma is followed by the other items. -/
theorem items_of_comma
    (hFront : skipBlanks front = .ok ((), text))
    (hItem : reader text = .ok (item, left))
    (hAfter : skipBlanks left = .ok ((), .char ',' :: rest))
    (fuel : Nat) :
    items reader (fuel + 1) front =
      (do return item :: (← items reader fuel) :
        Reader (List Value)) rest := by
  rw [items, bind_of_ok hFront, bind_of_ok hItem,
    bind_of_ok hAfter, bind_peek?]
  rfl

/- An item before a bracket is the last. -/
theorem items_of_bracket
    (hFront : skipBlanks front = .ok ((), text))
    (hItem : reader text = .ok (item, left))
    (hAfter : skipBlanks left = .ok ((), .char ']' :: rest))
    (fuel : Nat) :
    items reader (fuel + 1) front = .ok ([item], rest) := by
  rw [items, bind_of_ok hFront, bind_of_ok hItem,
    bind_of_ok hAfter, bind_peek?]
  rfl

theorem items_of_error
    {failure : Failure}
    (hFront : skipBlanks front = .ok ((), text))
    (hItem : reader text = .error failure)
    (fuel : Nat) :
    items reader (fuel + 1) front = .error failure := by
  rw [items, bind_of_ok hFront, bind_of_error hItem]

end Items

/- The first of some written parts is followed by a separator. -/
theorem join_append
    (separator text next : Text)
    (more : List Text)
    (rest : Text) :
    Text.join separator (text :: next :: more) ++ rest =
      text ++ (separator ++
        (Text.join separator (next :: more) ++ rest)) := by
  rw [Text.join_cons_cons, List.append_assoc, List.append_assoc]

/-
  A constant whose text is read as it, up to a depth. A reader
  looks at the first code point before it reads a constant.
-/
structure Legible
    (reader : Reader Value)
    (layout : Layout)
    (level depth : Nat)
    (value : Value) : Prop where
  begins : Begins (write layout level value)
  reads :
    Reads reader (write layout level value)
      (limited depth value.nesting value)

/-
  Items that are read one by one are read as a list. The
  induction is on the items; between two of them stand a comma
  and blanks.
-/
theorem items_write
    {layout : Layout}
    {reader : Reader Value}
    {level depth : Nat}
    (hLayout : layout.IsBlank)
    {blanks closing : Text}
    (hBlanks : AllBlank blanks)
    (hClosing : AllBlank closing)
    (item : Value)
    (others : List Value)
    (hItems :
      ∀ value ∈ item :: others,
        Legible reader layout level depth value)
    {fuel : Nat}
    (hFuel : others.length < fuel)
    (rest : Text) :
    items reader fuel
        (blanks ++
          (Text.join (layout.separator level)
              (writeItems layout level (item :: others)) ++
            (closing ++ .char ']' :: rest))) =
      limited depth (Value.nestingItems (item :: others))
        (item :: others, rest) := by
  induction others generalizing item blanks fuel with
  | nil =>
      obtain ⟨fuel, rfl⟩ := Nat.exists_eq_add_one.mpr hFuel
      have hItem := hItems item List.mem_cons_self
      have hFront :=
        skipBlanks_of_begins hBlanks hItem.begins
          (closing ++ .char ']' :: rest)
      have hRead :=
        hItem.reads (closing ++ .char ']' :: rest)
          (apart_append hClosing (apart_cons (by decide) rest))
      have hNesting :
          Value.nestingItems [item] = item.nesting := by
        simp [Value.nestingItems]
      rw [writeItems, writeItems, Text.join_singleton, hNesting]
      rcases Nat.lt_or_ge depth item.nesting with hBeyond | hWithin
      · rw [limited_of_lt hBeyond] at hRead ⊢
        exact items_of_error hFront hRead fuel
      · rw [limited_of_le hWithin] at hRead ⊢
        exact items_of_bracket hFront hRead
          (skipBlanks_append hClosing (by decide) rest) fuel
  | cons next others ih =>
      obtain ⟨fuel, rfl⟩ :=
        Nat.exists_eq_add_one.mpr (Nat.zero_lt_of_lt hFuel)
      have hItem := hItems item List.mem_cons_self
      rcases layout.exists_separator hLayout level with
        ⟨between, hBetween, hSeparator⟩
      have hOthers :=
        ih hBetween next
          (fun value hMem => hItems value (List.mem_cons_of_mem _ hMem))
          (Nat.lt_of_succ_lt_succ hFuel)
      rw [writeItems, writeItems, join_append, ← writeItems,
        hSeparator, List.cons_append]
      rw [hSeparator] at hOthers
      generalize
        between ++
          (Text.join (.char ',' :: between)
              (writeItems layout level (next :: others)) ++
            (closing ++ .char ']' :: rest)) = more at hOthers ⊢
      have hFront :=
        skipBlanks_of_begins hBlanks hItem.begins (.char ',' :: more)
      have hRead :=
        hItem.reads (.char ',' :: more) (apart_cons (by decide) more)
      rw [Value.nestingItems]
      rcases Nat.lt_or_ge depth item.nesting with hBeyond | hWithin
      · rw [limited_of_lt hBeyond] at hRead
        rw [limited_of_lt (by omega)]
        exact items_of_error hFront hRead fuel
      · rw [limited_of_le hWithin] at hRead
        rw [limited_max hWithin,
          items_of_comma hFront hRead (skipBlanks_cons (by decide) _)]
        exact bind_pure_of_limited hOthers (item :: ·)

------------------------------------------------------------
-- Fields Of Maps
------------------------------------------------------------

section Fields

variable {reader : Reader Value}
variable {front text left rest name : Text}
variable {item : Value}

/- The name of a field is taken with the colon after it. -/
theorem bind_name
    {β : Type}
    (hFront :
      skipBlanks front = .ok ((), quoteAscii name ++ (": " ++ text)))
    (hName : name.isUnpaired = true)
    (hText : Begins text)
    (next : Text → Reader β) :
    (do
      skipBlanks
      let name ← string
      skipBlanks
      exactly ":"
      skipBlanks
      next name : Reader β) front = next name text := by
  have hBlank : AllBlank [.char ' '] := fun c hMem => by
    cases List.mem_singleton.mp hMem
    rfl
  have hSkipped := skipBlanks_of_begins hBlank hText []
  rw [List.append_nil] at hSkipped
  have hColon :
      skipBlanks (": " ++ text) = .ok ((), ": " ++ text) := rfl
  have hExactly :
      exactly ":" (": " ++ text) = .ok ((), [.char ' '] ++ text) :=
    rfl
  rw [bind_of_ok hFront, bind_of_ok (string_quoteAscii hName _),
    bind_of_ok hColon, bind_of_ok hExactly, bind_of_ok hSkipped]

variable
    (hFront :
      skipBlanks front = .ok ((), quoteAscii name ++ (": " ++ text)))
    (hName : name.isUnpaired = true)
    (hText : Begins text)
include hFront hName hText

/- A field before a comma is followed by the other fields. -/
theorem fields_of_comma
    (hItem : reader text = .ok (item, left))
    (hAfter : skipBlanks left = .ok ((), .char ',' :: rest))
    (fuel : Nat)
    (before : Fields Value) :
    fields reader (fuel + 1) before front =
      fields reader fuel (before.set name item) rest := by
  rw [fields, bind_name hFront hName hText, bind_of_ok hItem,
    bind_of_ok hAfter, bind_peek?]
  rfl

/- A field before a brace is the last. -/
theorem fields_of_brace
    (hItem : reader text = .ok (item, left))
    (hAfter : skipBlanks left = .ok ((), .char '\x7d' :: rest))
    (fuel : Nat)
    (before : Fields Value) :
    fields reader (fuel + 1) before front =
      .ok (before.set name item, rest) := by
  rw [fields, bind_name hFront hName hText, bind_of_ok hItem,
    bind_of_ok hAfter, bind_peek?]
  rfl

theorem fields_of_error
    {failure : Failure}
    (hItem : reader text = .error failure)
    (fuel : Nat)
    (before : Fields Value) :
    fields reader (fuel + 1) before front = .error failure := by
  rw [fields, bind_name hFront hName hText, bind_of_error hItem]

end Fields

/- A written field before the rest begins with the quote of its name. -/
theorem skipBlanks_of_name
    {blanks : Text}
    (hBlanks : AllBlank blanks)
    (name value rest : Text) :
    skipBlanks (blanks ++ ((quoteAscii name ++ ": " ++ value) ++ rest)) =
      .ok ((), quoteAscii name ++ (": " ++ (value ++ rest))) := by
  rw [List.append_assoc, List.append_assoc]
  exact skipBlanks_append hBlanks (by decide) _

theorem Begins.append
    {text : Text}
    (hBegins : Begins text)
    (rest : Text) :
    Begins (text ++ rest) := by
  rcases hBegins with ⟨c, more, rfl, hOther, hBracket⟩
  exact ⟨c, more ++ rest, rfl, hOther, hBracket⟩

/- Among distinct names each one is new after those before it. -/
theorem set_of_areDistinct
    {before others : Fields Value}
    {name : Text}
    {item : Value}
    (hDistinct :
      Fields.areDistinct (before ++ (name, item) :: others) = true) :
    before.set name item = before ++ [(name, item)] := by
  refine Fields.set_of_not_mem (fun hOld => ?_) item
  simp only [Fields.areDistinct, Fields.names, List.map_append,
    decide_eq_true_eq, List.nodup_append] at hDistinct
  exact hDistinct.2.2 name hOld name (by simp) rfl

/-
  Fields whose values are read one by one are read as the
  fields of a map. The names are distinct, so each field comes
  after those before it.
-/
theorem fields_write
    {layout : Layout}
    {reader : Reader Value}
    {level depth : Nat}
    (hLayout : layout.IsBlank)
    {blanks closing : Text}
    (hBlanks : AllBlank blanks)
    (hClosing : AllBlank closing)
    (before : Fields Value)
    (name : Text)
    (item : Value)
    (others : Fields Value)
    (hDistinct :
      Fields.areDistinct (before ++ (name, item) :: others) = true)
    (hFields :
      ∀ entry ∈ (name, item) :: others,
        entry.1.isUnpaired = true ∧
          Legible reader layout level depth entry.2)
    {fuel : Nat}
    (hFuel : others.length < fuel)
    (rest : Text) :
    fields reader fuel before
        (blanks ++
          (Text.join (layout.separator level)
              (writeFields layout level ((name, item) :: others)) ++
            (closing ++ .char '\x7d' :: rest))) =
      limited depth (Value.nestingFields ((name, item) :: others))
        (before ++ (name, item) :: others, rest) := by
  induction others generalizing name item before blanks fuel with
  | nil =>
      obtain ⟨fuel, rfl⟩ := Nat.exists_eq_add_one.mpr hFuel
      rcases hFields (name, item) List.mem_cons_self with
        ⟨hName, hItem⟩
      have hBegins :=
        hItem.begins.append (closing ++ .char '\x7d' :: rest)
      have hFront :=
        skipBlanks_of_name hBlanks name (write layout level item)
          (closing ++ .char '\x7d' :: rest)
      have hRead :=
        hItem.reads (closing ++ .char '\x7d' :: rest)
          (apart_append hClosing (apart_cons (by decide) rest))
      have hNesting :
          Value.nestingFields [(name, item)] = item.nesting := by
        simp [Value.nestingFields]
      rw [writeFields, writeFields, Text.join_singleton, hNesting]
      rcases Nat.lt_or_ge depth item.nesting with hBeyond | hWithin
      · rw [limited_of_lt hBeyond] at hRead ⊢
        exact fields_of_error hFront hName hBegins hRead fuel before
      · rw [limited_of_le hWithin] at hRead ⊢
        rw [← set_of_areDistinct hDistinct]
        exact fields_of_brace hFront hName hBegins hRead
          (skipBlanks_append hClosing (by decide) rest) fuel before
  | cons next others ih =>
      obtain ⟨fuel, rfl⟩ :=
        Nat.exists_eq_add_one.mpr (Nat.zero_lt_of_lt hFuel)
      rcases next with ⟨nextName, nextItem⟩
      rcases hFields (name, item) List.mem_cons_self with
        ⟨hName, hItem⟩
      rcases layout.exists_separator hLayout level with
        ⟨between, hBetween, hSeparator⟩
      have hOthers :=
        ih hBetween (before ++ [(name, item)]) nextName nextItem
          (by rw [List.append_assoc]; exact hDistinct)
          (fun entry hMem => hFields entry (List.mem_cons_of_mem _ hMem))
          (Nat.lt_of_succ_lt_succ hFuel)
      rw [writeFields, writeFields, join_append, ← writeFields,
        hSeparator, List.cons_append]
      rw [hSeparator, List.append_assoc] at hOthers
      generalize
        between ++
          (Text.join (.char ',' :: between)
              (writeFields layout level
                ((nextName, nextItem) :: others)) ++
            (closing ++ .char '\x7d' :: rest)) = more at hOthers ⊢
      have hBegins := hItem.begins.append (.char ',' :: more)
      have hFront :=
        skipBlanks_of_name hBlanks name (write layout level item)
          (.char ',' :: more)
      have hRead :=
        hItem.reads (.char ',' :: more) (apart_cons (by decide) more)
      rw [Value.nestingFields]
      rcases Nat.lt_or_ge depth item.nesting with hBeyond | hWithin
      · rw [limited_of_lt hBeyond] at hRead
        rw [limited_of_lt (by omega)]
        exact fields_of_error hFront hName hBegins hRead fuel before
      · rw [limited_of_le hWithin] at hRead
        rw [limited_max hWithin,
          fields_of_comma hFront hName hBegins hRead
            (skipBlanks_cons (by decide) _),
          set_of_areDistinct hDistinct]
        exact hOthers

------------------------------------------------------------
-- Lists And Maps
------------------------------------------------------------

/- What is written is at least as long as its parts are many. -/
theorem length_le_length_join
    {α : Type}
    (separator : Text)
    {written : α → Text}
    {parts : List α}
    (hParts : ∀ part ∈ parts, 0 < (written part).length)
    (rest : Text) :
    parts.length ≤
      (Text.join separator (parts.map written) ++ rest).length := by
  rw [List.length_append]
  refine Nat.le_trans ?_ (Nat.le_add_right _ _)
  induction parts with
  | nil => exact Nat.zero_le _
  | cons part parts ih =>
      have hFirst := hParts part List.mem_cons_self
      have hOthers :=
        ih fun part hMem => hParts part (List.mem_cons_of_mem _ hMem)
      cases parts with
      | nil =>
          rw [List.map_cons, List.map_nil, Text.join_singleton]
          exact hFirst
      | cons next more =>
          rw [List.map_cons, List.map_cons, Text.join_cons_cons,
            List.length_append, List.length_append, List.length_cons,
            ← List.map_cons]
          omega

theorem Begins.length_pos
    {text : Text}
    (hBegins : Begins text) :
    0 < text.length := by
  rcases hBegins with ⟨c, rest, rfl, _, _⟩
  exact Nat.zero_lt_succ _

theorem Begins.join
    (separator : Text)
    {text : Text}
    (hBegins : Begins text)
    (more : List Text) :
    Begins (Text.join separator (text :: more)) := by
  cases more with
  | nil =>
      rw [Text.join_singleton]
      exact hBegins
  | cons next more =>
      rw [Text.join_cons_cons]
      exact hBegins.append _

theorem writeItems_eq_map
    (layout : Layout)
    (level : Nat)
    (items : List Value) :
    writeItems layout level items =
      items.map (write layout level) := by
  induction items with
  | nil => rw [writeItems, List.map_nil]
  | cons item items ih => rw [writeItems, ih, List.map_cons]

/- A field with its name, as it is written. -/
def writeField
    (layout : Layout)
    (level : Nat)
    (entry : Text × Value) :
    Text :=
  quoteAscii entry.1 ++ ": " ++ write layout level entry.2

theorem length_writeField_pos
    (layout : Layout)
    (level : Nat)
    (entry : Text × Value) :
    0 < (writeField layout level entry).length :=
  Nat.zero_lt_succ _

theorem writeFields_eq_map
    (layout : Layout)
    (level : Nat)
    (fields : Fields Value) :
    writeFields layout level fields =
      fields.map (writeField layout level) := by
  induction fields with
  | nil => rw [writeFields, List.map_nil]
  | cons entry fields ih =>
      rw [writeFields, ih, List.map_cons, writeField]

section Enclosed

variable {layout : Layout}
variable {level depth : Nat}

/- What stands between brackets that are not empty. -/
theorem enclose_append
    {opening closing : Text}
    {parts : List Text}
    (hParts : parts ≠ [])
    (rest : Text) :
    layout.enclose level opening closing parts ++ rest =
      opening ++ (layout.lineStart (level + 1) ++
        (Text.join (layout.separator (level + 1)) parts ++
          (layout.lineStart level ++ (closing ++ rest)))) := by
  rw [Layout.enclose]
  · simp only [List.append_assoc]
  · exact hParts

theorem list_of_begins
    {reader : Reader Value}
    {front text : Text}
    (hFront : skipBlanks front = .ok ((), text))
    (hBegins : Begins text) :
    list reader front =
      (do return .list (← items reader text.length) :
        Reader Value) text := by
  rcases hBegins with ⟨c, more, rfl, _, hOther⟩
  have hNext : ¬ some c = some (.char ']') := fun hClose =>
    hOther (Option.some.inj hClose)
  rw [list, bind_of_ok hFront, bind_peek?, List.head?_cons,
    if_neg hNext, bind_get]

/- A list is read at one more level than its items. -/
theorem reads_list
    (hLayout : layout.IsBlank)
    {items : List Value}
    (hItems :
      ∀ item ∈ items,
        Legible (value depth) layout (level + 1) depth item) :
    Reads (value (depth + 1)) (write layout level (.list items))
      (limited (depth + 1) (Value.nesting (.list items))
        (.list items)) := by
  intro rest _
  cases items with
  | nil =>
      rw [limited_of_le (by simp [Value.nesting, Value.nestingItems])]
      rfl
  | cons item items =>
      rw [write, enclose_append (by rw [writeItems]; simp),
        Value.nesting, limited_succ, map_limited]
      generalize hTail :
        Text.join (layout.separator (level + 1))
            (writeItems layout (level + 1) (item :: items)) ++
          (layout.lineStart level ++ (Text.ofString "]" ++ rest)) = tail
      have hBegins : Begins tail := by
        rw [← hTail, writeItems]
        exact ((hItems item List.mem_cons_self).begins.join _ _).append _
      have hBlanks := layout.allBlank_lineStart hLayout (level + 1)
      have hSkipped := skipBlanks_of_begins hBlanks hBegins []
      rw [List.append_nil] at hSkipped
      have hList :
          value (depth + 1)
              (Text.ofString "[" ++ (layout.lineStart (level + 1) ++ tail)) =
            list (value depth) (layout.lineStart (level + 1) ++ tail) :=
        rfl
      have hFuel : items.length < tail.length := by
        rw [← hTail, writeItems_eq_map]
        exact length_le_length_join _
          (fun value hMem => (hItems value hMem).begins.length_pos) _
      rw [hList, list_of_begins hSkipped hBegins]
      refine bind_pure_of_limited ?_ Value.list
      rw [← hTail] at hFuel ⊢
      exact items_write hLayout allBlank_nil
        (layout.allBlank_lineStart hLayout level) item items hItems
        hFuel rest

theorem map_of_quote
    {reader : Reader Value}
    {front text : Text}
    (hFront : skipBlanks front = .ok ((), .char '"' :: text)) :
    map reader front =
      (do
        return .map
          (← fields reader (CodePoint.char '"' :: text).length []) :
        Reader Value) (.char '"' :: text) := by
  rw [map, bind_of_ok hFront, bind_peek?, List.head?_cons,
    if_neg (by decide), bind_get]

/- A map is read at one more level than its values. -/
theorem reads_map
    (hLayout : layout.IsBlank)
    {fields : Fields Value}
    (hDistinct : fields.areDistinct = true)
    (hFields :
      ∀ entry ∈ fields,
        entry.1.isUnpaired = true ∧
          Legible (value depth) layout (level + 1) depth entry.2) :
    Reads (value (depth + 1)) (write layout level (.map fields))
      (limited (depth + 1) (Value.nesting (.map fields))
        (.map fields)) := by
  intro rest _
  cases fields with
  | nil =>
      rw [limited_of_le (by simp [Value.nesting, Value.nestingFields])]
      rfl
  | cons entry fields =>
      rcases entry with ⟨name, item⟩
      rw [write, enclose_append (by rw [writeFields]; simp),
        Value.nesting, limited_succ, map_limited]
      generalize hTail :
        Text.join (layout.separator (level + 1))
            (writeFields layout (level + 1) ((name, item) :: fields)) ++
          (layout.lineStart level ++ (Text.ofString "\x7d" ++ rest)) = tail
      obtain ⟨more, hQuote⟩ : ∃ more, tail = .char '"' :: more := by
        rw [← hTail, writeFields]
        cases writeFields layout (level + 1) fields with
        | nil => exact ⟨_, by rw [Text.join_singleton]; rfl⟩
        | cons next others =>
            exact ⟨_, by rw [Text.join_cons_cons]; rfl⟩
      have hBlanks := layout.allBlank_lineStart hLayout (level + 1)
      have hSkipped :
          skipBlanks (layout.lineStart (level + 1) ++ tail) =
            .ok ((), tail) := by
        rw [hQuote]
        exact skipBlanks_append hBlanks (by decide) more
      have hMap :
          value (depth + 1)
              (Text.ofString "\x7b" ++
                (layout.lineStart (level + 1) ++ tail)) =
            map (value depth) (layout.lineStart (level + 1) ++ tail) :=
        rfl
      have hFuel : fields.length < tail.length := by
        rw [← hTail, writeFields_eq_map]
        refine Nat.lt_of_succ_le ?_
        rw [Nat.succ_eq_add_one, ← List.length_cons]
        exact length_le_length_join _
          (fun entry _ => length_writeField_pos _ _ entry) _
      rw [hQuote] at hSkipped
      rw [hMap, hQuote, map_of_quote hSkipped, ← hQuote]
      refine bind_pure_of_limited ?_ Value.map
      rw [← hTail] at hFuel ⊢
      exact fields_write hLayout allBlank_nil
        (layout.allBlank_lineStart hLayout level) [] name item fields
        hDistinct hFields hFuel rest

end Enclosed

------------------------------------------------------------
-- Constants And Their Texts
------------------------------------------------------------

/- A reader that finds a digit or a sign reads a number. -/
theorem value_of_leadsPlain
    {sign text : Text}
    (hSign : sign = [] ∨ sign = "-")
    (hPlain : text.LeadsPlain)
    (depth : Nat)
    (rest : Text) :
    value (depth + 1) (sign ++ text ++ rest) =
      number (sign ++ text ++ rest) := by
  rcases hSign with rfl | rfl
  · rcases hPlain with ⟨c, more, rfl, hDigit, _⟩
    rw [List.nil_append, List.cons_append, value, bind_peek?,
      List.head?_cons]
    refine congrFun ?_ _
    split
    case h_7 => rfl
    all_goals
      rename_i hFirst
      cases hFirst
      cases hDigit
  · rfl

theorem reads_number
    {sign text : Text}
    {constant : Value}
    (hSign : sign = [] ∨ sign = "-")
    (hPlain : text.LeadsPlain)
    (hNumber :
      ∀ rest : Text, rest.Apart →
        number (sign ++ text ++ rest) = .ok (constant, rest))
    (depth : Nat) :
    Reads (value (depth + 1)) (sign ++ text) (.ok constant) := by
  intro rest hApart
  rw [value_of_leadsPlain hSign hPlain, hNumber rest hApart]
  rfl

/-
  A constant is legible to a reader of any depth. The induction
  is on the depth, which the items of lists and maps have one
  less of.
-/
theorem legible
    {layout : Layout}
    (hLayout : layout.IsBlank)
    (depth level : Nat)
    {constant : Value}
    (hBounded : constant.isBounded = true)
    (hUnpaired : constant.isUnpaired = true) :
    Legible (value depth) layout level depth constant := by
  refine ⟨begins_write layout level hBounded, ?_⟩
  induction depth generalizing level constant with
  | zero =>
      intro rest _
      rw [limited_of_lt constant.nesting_pos]
      rfl
  | succ depth ih =>
      cases constant with
      | null => exact fun _ _ => rfl
      | bool truth => cases truth <;> exact fun _ _ => rfl
      | int n =>
          rcases Text.exists_leadsPlain_ofInt n with
            ⟨sign, text, hSign, hPlain, hText⟩
          rw [Value.isBounded, decide_eq_true_eq] at hBounded
          rw [limited_of_le (by simp [Value.nesting]), write, hText]
          refine reads_number hSign hPlain (fun rest hApart => ?_) depth
          rw [← hText]
          exact number_ofInt hBounded hApart
      | float x =>
          rcases Binary64.exists_leadsPlain_toText hBounded with
            ⟨sign, text, hSign, hPlain, hText⟩
          rw [limited_of_le (by simp [Value.nesting]), write, hText]
          refine reads_number hSign hPlain (fun rest hApart => ?_) depth
          rw [← hText]
          exact number_toText hBounded hApart
      | text content =>
          intro rest _
          have hString := string_quoteAscii hUnpaired rest
          rw [limited_of_le (by simp [Value.nesting])]
          exact bind_of_ok hString fun content =>
            (return .text content : Reader Value)
      | list items =>
          rw [Value.isBounded, Value.areBounded_iff] at hBounded
          rw [Value.isUnpaired, Value.areUnpaired_iff] at hUnpaired
          exact reads_list hLayout fun item hMem =>
            ⟨begins_write layout (level + 1) (hBounded item hMem),
              ih (level + 1) (hBounded item hMem)
                (hUnpaired item hMem)⟩
      | map fields =>
          rw [Value.isBounded, Bool.and_eq_true,
            Value.haveBounded_iff] at hBounded
          rw [Value.isUnpaired, Value.haveUnpaired_iff] at hUnpaired
          exact reads_map hLayout hBounded.1 fun entry hMem =>
            ⟨(hUnpaired entry hMem).1,
              begins_write layout (level + 1) (hBounded.2 entry hMem),
              ih (level + 1) (hBounded.2 entry hMem)
                (hUnpaired entry hMem).2⟩

/- The text of a constant is the JSON of the constant. -/
theorem decode_write
    {layout : Layout}
    (hLayout : layout.IsBlank)
    (depth : Nat)
    {constant : Value}
    (hBounded : constant.isBounded = true)
    (hUnpaired : constant.isUnpaired = true) :
    decode depth (write layout 0 constant) =
      limited depth constant.nesting constant := by
  have hLegible := legible hLayout depth 0 hBounded hUnpaired
  have hFront :=
    skipBlanks_of_begins allBlank_nil hLegible.begins []
  have hValue :=
    hLegible.reads [] fun _ hMem => absurd hMem (by simp)
  rw [List.nil_append, List.append_nil] at hFront
  rw [List.append_nil, map_limited] at hValue
  unfold decode
  rcases Nat.lt_or_ge depth constant.nesting with hBeyond | hWithin
  · rw [limited_of_lt hBeyond] at hValue ⊢
    rw [StateT.run', bind_of_ok hFront, bind_of_error hValue]
    rfl
  · rw [limited_of_le hWithin] at hValue ⊢
    rw [StateT.run', bind_of_ok hFront, bind_of_ok hValue]
    rfl

------------------------------------------------------------
-- Written Characters
------------------------------------------------------------

/- Visible characters, and what begins lines in a layout. -/
def Layout.Covers
    (layout : Layout)
    (text : Text) : Prop :=
  ∀ c ∈ text,
    (0x20 ≤ c.toNat ∧ c.toNat < 0x7F) ∨ layout.Begins c

namespace Layout.Covers

variable {layout : Layout}

theorem of_isVisible
    {text : Text}
    (hText : text.IsVisible) :
    layout.Covers text :=
  fun c hMem => .inl (hText c hMem)

theorem append
    {front back : Text}
    (hFront : layout.Covers front)
    (hBack : layout.Covers back) :
    layout.Covers (front ++ back) :=
  List.forall_mem_append.mpr ⟨hFront, hBack⟩

/- The text of a number is covered. -/
theorem numeral (numeral : Numeral) : layout.Covers numeral.text := by
  refine of_isVisible
    (numeral.forall_mem_text (fun c hDigit => ?_) (by decide))
  have hRange := CodePoint.toNat_of_isAsciiDigit hDigit
  omega

theorem lineStart (level : Nat) :
    layout.Covers (layout.lineStart level) :=
  fun _ hMem => .inr (begins_of_mem_lineStart hMem)

theorem separator (level : Nat) :
    layout.Covers (layout.separator level) := by
  cases layout with
  | oneLine =>
      exact of_isVisible (show Text.IsVisible ", " by decide)
  | indented unit =>
      exact append (of_isVisible (show Text.IsVisible "," by decide))
        (lineStart level)

theorem join
    {separator : Text}
    (hSeparator : layout.Covers separator)
    {parts : List Text}
    (hParts : ∀ part ∈ parts, layout.Covers part) :
    layout.Covers (Text.join separator parts) := by
  induction parts with
  | nil => exact fun _ hMem => absurd hMem (by simp [Text.join])
  | cons part parts ih =>
      have hOthers :=
        ih fun part hMem => hParts part (List.mem_cons_of_mem _ hMem)
      have hFirst := hParts part List.mem_cons_self
      cases parts with
      | nil =>
          rw [Text.join_singleton]
          exact hFirst
      | cons next more =>
          rw [Text.join_cons_cons]
          exact hFirst.append (hSeparator.append hOthers)

theorem enclose
    (level : Nat)
    {opening closing : Text}
    (hOpening : opening.IsVisible)
    (hClosing : closing.IsVisible)
    {parts : List Text}
    (hParts : ∀ part ∈ parts, layout.Covers part) :
    layout.Covers (layout.enclose level opening closing parts) := by
  have hFirst : layout.Covers opening := of_isVisible hOpening
  have hLast : layout.Covers closing := of_isVisible hClosing
  cases parts with
  | nil => exact hFirst.append hLast
  | cons part parts =>
      exact (((hFirst.append (lineStart (level + 1))).append
        (join (separator (level + 1)) hParts)).append
          (lineStart level)).append hLast

end Layout.Covers

mutual

/- All that is written of a constant within bounds is covered. -/
theorem covers_write
    (layout : Layout)
    (level : Nat) :
    ∀ constant : Value,
      constant.isBounded = true →
      layout.Covers (write layout level constant)
  | .null => fun _ =>
    .of_isVisible (show Text.IsVisible "null" by decide)
  | .bool true => fun _ =>
    .of_isVisible (show Text.IsVisible "true" by decide)
  | .bool false => fun _ =>
    .of_isVisible (show Text.IsVisible "false" by decide)
  | .int n => by
    intro hBounded
    rw [Value.isBounded, decide_eq_true_eq] at hBounded
    rcases Text.exists_numeral_ofInt hBounded with
      ⟨numeral, hText, _, _⟩
    rw [write, ← hText]
    exact .numeral numeral
  | .float x => by
    intro hBounded
    rcases Binary64.exists_numeral_toText hBounded with
      ⟨numeral, hText, _, _⟩
    rw [write, ← hText]
    exact .numeral numeral
  | .text content => fun _ =>
    .of_isVisible (isVisible_quoteAscii content)
  | .list items => by
    intro hBounded
    rw [Value.isBounded] at hBounded
    exact .enclose level (by decide) (by decide)
      (covers_writeItems layout (level + 1) items hBounded)
  | .map fields => by
    intro hBounded
    rw [Value.isBounded, Bool.and_eq_true] at hBounded
    exact .enclose level (by decide) (by decide)
      (covers_writeFields layout (level + 1) fields hBounded.2)

theorem covers_writeItems
    (layout : Layout)
    (level : Nat) :
    ∀ items : List Value,
      Value.areBounded items = true →
      ∀ part ∈ writeItems layout level items, layout.Covers part
  | [], _ => fun _ hMem => absurd hMem List.not_mem_nil
  | item :: items, hBounded => by
    rw [Value.areBounded, Bool.and_eq_true] at hBounded
    exact List.forall_mem_cons.mpr
      ⟨covers_write layout level item hBounded.1,
        covers_writeItems layout level items hBounded.2⟩

theorem covers_writeFields
    (layout : Layout)
    (level : Nat) :
    ∀ fields : List (Text × Value),
      Value.haveBounded fields = true →
      ∀ part ∈ writeFields layout level fields, layout.Covers part
  | [], _ => fun _ hMem => absurd hMem List.not_mem_nil
  | (name, value) :: fields, hBounded => by
    rw [Value.haveBounded, Bool.and_eq_true] at hBounded
    exact List.forall_mem_cons.mpr
      ⟨((Layout.Covers.of_isVisible (isVisible_quoteAscii name)).append
        (.of_isVisible (show Text.IsVisible ": " by decide))).append
          (covers_write layout level value hBounded.1),
        covers_writeFields layout level fields hBounded.2⟩

end

/- A constant within bounds is written in ASCII characters. -/
theorem isAscii_write
    {layout : Layout}
    (hLayout : layout.IsBlank)
    (level : Nat)
    (constant : Value)
    (hBounded : constant.isBounded = true) :
    IsAscii (write layout level constant) := by
  intro c hMem
  rcases covers_write layout level constant hBounded c hMem with
    ⟨-, hVisible⟩ | hBegins
  · omega
  · have hBlank := Layout.isBlank_of_begins hLayout hBegins
    simp only [isBlank, Bool.or_eq_true, beq_iff_eq] at hBlank
    rcases hBlank with ((rfl | rfl) | rfl) | rfl <;> decide

end Json

end ExperimentScript
