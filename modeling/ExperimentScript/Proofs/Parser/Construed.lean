import ExperimentScript.Proofs.Json.Depth
import ExperimentScript.Proofs.Parser.Denotes

/-
  Embedded constants are read exactly where there are some.

  What the grammar derives from tokens is read from them,
  whatever comes after them, as soon as the limit of nesting
  is high enough for it. Since reading has one outcome, no
  tokens denote two constants and no constant begins another
  one. With what `Denotes` says of each constant that is read,
  reading and the grammar agree.

  Key definitions include:
    * `ExperimentScript.Parse.Takes`
    * `ExperimentScript.Embedded.ReadsTo`

  Main declarations:
    * `ExperimentScript.Embedded.takes_value`
    * `ExperimentScript.Embedded.Denotes.unique`
    * `ExperimentScript.Embedded.readsTo_iff_denotes`
-/

namespace ExperimentScript

------------------------------------------------------------
-- Tokens That Are Taken Anywhere
------------------------------------------------------------

namespace Cursor

variable {cursor : Cursor}
variable {token : Token}
variable {tokens : List Token}

theorem rest_start
    (hTokens : tokens ≠ []) :
    (Cursor.start tokens).rest = tokens := by
  cases tokens with
  | nil => exact absurd rfl hTokens
  | cons token tokens => rfl

/- After a number of tokens the others are left. -/
theorem Closed.rest_skip
    (hClosed : cursor.Closed)
    (count : Nat)
    (hCount : count < cursor.rest.length) :
    (cursor.skip count).rest = cursor.rest.drop count := by
  induction count generalizing cursor with
  | zero => rfl
  | succ count ih =>
      have hKind : cursor.current.kind ≠ .endOfInput := by
        intro hKind
        rw [length_rest, fuel, hClosed.kind_eq_iff.mp hKind]
          at hCount
        simp at hCount
      rw [hClosed.rest_eq hKind, List.length_cons] at hCount
      rw [Cursor.skip, ih hClosed.next (Nat.lt_of_succ_lt_succ hCount),
        hClosed.rest_eq hKind]
      rfl

theorem current_of_rest
    (hRest : cursor.rest = token :: tokens) :
    cursor.current = token :=
  (List.cons.inj hRest).1

/- Where more tokens come, the first of them can be taken. -/
theorem rest_next_of_rest
    (hRest : cursor.rest = token :: tokens)
    (hMore : tokens ≠ []) :
    cursor.next.rest = tokens := by
  have hAhead := (List.cons.inj hRest).2
  cases hTokens : cursor.ahead with
  | nil => exact absurd (hAhead.symm.trans hTokens) hMore
  | cons next others =>
      rw [← hAhead, Cursor.next, hTokens]
      rfl

end Cursor

namespace Parse

variable {α β : Type}

/-
  Wherever some tokens are ahead, with others after them, a
  step takes them and gives a result if something holds, and
  if it does not, the step hits the limit of nesting.
-/
def Takes
    (fits : Prop)
    (step : Parse α)
    (tokens : List Token)
    (result : α) : Prop :=
  ∀ cursor rest, rest ≠ [] → cursor.rest = tokens ++ rest →
    step.Ends cursor
      (fun found after =>
        fits ∧ found = result ∧ after.rest = rest)
      (fun error => ¬ fits ∧ error.isDepthLimit = true)

namespace Takes

variable {fits : Prop}
variable {token : Token}
variable {tokens : List Token}
variable {result : α}

theorem congr
    {step : Parse α}
    {other : Prop}
    (hStep : Takes fits step tokens result)
    (hFits : fits ↔ other) :
    Takes other step tokens result :=
  propext hFits ▸ hStep

theorem pure : Takes True (Pure.pure result) [] result :=
  fun _ _ _ hCursor => ⟨trivial, rfl, hCursor⟩

theorem bind
    {more : Prop}
    {first : Parse β}
    {next : β → Parse α}
    {between : β}
    {others : List Token}
    (hFirst : Takes fits first tokens between)
    (hNext : Takes more (next between) others result) :
    Takes (fits ∧ more) (first >>= next) (tokens ++ others)
      result := by
  intro cursor rest hRest hCursor
  rw [List.append_assoc] at hCursor
  rw [ends_bind]
  refine (hFirst cursor _ (by simp [hRest]) hCursor).mono ?_
    fun error hError => hError.imp_left fun hFails hBoth =>
      hFails hBoth.1
  rintro found after ⟨hFits, rfl, hAfter⟩
  exact (hNext after rest hRest hAfter).mono
    (fun last stop hLast => ⟨⟨hFits, hLast.1⟩, hLast.2⟩)
    fun error hError => hError.imp_left fun hFails hBoth =>
      hFails hBoth.2

/- What a step gives may be put into something else. -/
theorem map
    {first : Parse β}
    {between : β}
    {f : β → α}
    (hFirst : Takes fits first tokens between) :
    Takes fits (first >>= fun found => Pure.pure (f found)) tokens
      (f between) := by
  have hBoth :
      Takes (fits ∧ True)
        (first >>= fun found => Pure.pure (f found))
        (tokens ++ []) (f between) :=
    hFirst.bind .pure
  rw [List.append_nil] at hBoth
  exact hBoth.congr (and_iff_left trivial)

/- The token at the place may be looked at. -/
theorem current
    {next : Token → Parse α}
    (hNext : Takes fits (next token) (token :: tokens) result) :
    Takes fits (Parse.current >>= next) (token :: tokens)
      result := by
  intro cursor rest hRest hCursor
  rw [ends_bind, ends_current, Cursor.current_of_rest hCursor]
  exact hNext cursor rest hRest hCursor

theorem advance
    {next : Token → Parse α}
    (hNext : Takes fits (next token) tokens result) :
    Takes fits (Parse.advance >>= next) (token :: tokens)
      result := by
  intro cursor rest hRest hCursor
  rw [ends_bind, ends_advance, Cursor.current_of_rest hCursor]
  exact hNext cursor.next rest hRest
    (Cursor.rest_next_of_rest hCursor (by simp [hRest]))

section Choices

variable {takes : TokenKind → Bool}
variable {taken : Token → Parse α}
variable {other : Parse α}

theorem choice_taken
    (hKind : takes token.kind = true)
    (hTaken : Takes fits (taken token) tokens result) :
    Takes fits (choice takes taken other) (token :: tokens)
      result := by
  refine .current ?_
  rw [if_pos hKind]
  exact .advance hTaken

theorem choice_other
    (hKind : takes token.kind = false)
    (hOther : Takes fits other (token :: tokens) result) :
    Takes fits (choice takes taken other) (token :: tokens)
      result := by
  refine .current ?_
  rw [if_neg (Bool.eq_false_iff.mp hKind)]
  exact hOther

end Choices

/- Lists are read with more fuel than there are tokens to take. -/
theorem fuelled
    {step : Nat → Parse α}
    (hStep :
      ∀ fuel, tokens.length < fuel →
        Takes fits (step fuel) tokens result) :
    Takes fits (MonadState.get >>= fun cursor : Cursor =>
      step cursor.fuel) tokens result := by
  intro cursor rest hRest hCursor
  rw [ends_bind, ends_get]
  refine hStep cursor.fuel ?_ cursor rest hRest hCursor
  have hLength := List.length_pos_iff.mpr hRest
  rw [← Cursor.length_rest, hCursor, List.length_append]
  omega

/- A run that succeeds where the tokens are has taken them. -/
theorem of_ok
    {step : Parse α}
    {cursor after : Cursor}
    {rest : List Token}
    {found : α}
    (hTakes : Takes fits step tokens result)
    (hRest : rest ≠ [])
    (hCursor : cursor.rest = tokens ++ rest)
    (hOk : step cursor = .ok found after) :
    fits ∧ found = result ∧ after.rest = rest :=
  (hTakes cursor rest hRest hCursor).of_ok hOk

/- A step that fits gives its result wherever the tokens are. -/
theorem exists_ok
    {step : Parse α}
    {cursor : Cursor}
    {rest : List Token}
    (hTakes : Takes fits step tokens result)
    (hFits : fits)
    (hRest : rest ≠ [])
    (hCursor : cursor.rest = tokens ++ rest) :
    ∃ after, step cursor = .ok result after ∧ after.rest = rest := by
  have hEnds := hTakes cursor rest hRest hCursor
  unfold Ends at hEnds
  split at hEnds
  · rename_i found after hStep
    rcases hEnds with ⟨-, rfl, hAfter⟩
    exact ⟨after, hStep, hAfter⟩
  · exact absurd hFits hEnds.1

end Takes

end Parse

------------------------------------------------------------
-- What The Grammar Derives Is Read
------------------------------------------------------------

namespace Embedded

open Parse

variable {strict : Bool}
variable {tokens : List Token}

theorem takes_oneOf
    {α : Type}
    {fits : Prop}
    {token : Token}
    {kinds : List TokenKind}
    {taken : Token → Parse α}
    {result : α}
    (hKind : token.kind ∈ kinds)
    (hTaken : Takes fits (taken token) tokens result) :
    Takes fits (oneOf kinds taken) (token :: tokens) result :=
  .choice_taken (by simpa using hKind) hTaken

/-
  A constant is read from some depth on. Below the first one
  nothing is read.
-/
theorem exists_least_of_succ
    (least : Nat)
    {result : Value}
    (hTakes :
      ∀ depth, Takes (least ≤ depth) (value strict (depth + 1))
        tokens result) :
    ∃ least, ∀ depth,
      Takes (least ≤ depth) (value strict depth) tokens result := by
  refine ⟨least + 1, fun depth => ?_⟩
  cases depth with
  | zero => exact fun _ _ _ _ => ⟨Nat.not_succ_le_zero least, rfl⟩
  | succ depth =>
      exact (hTakes depth).congr Nat.succ_le_succ_iff.symm

/- A constant of one token is read at every depth. -/
theorem exists_least_of_token
    {token : Token}
    {result : Value}
    (hValue :
      ∀ depth, Takes True (value strict (depth + 1)) [token]
        result) :
    ∃ least, ∀ depth,
      Takes (least ≤ depth) (value strict depth) [token]
        result :=
  exists_least_of_succ 0 fun depth =>
    (hValue depth).congr (iff_of_true trivial depth.zero_le)

/- A string is read as what it stands for, however deep that nests. -/
theorem takes_stringValue
    {token : Token}
    {result : Value}
    (hValue : StringDenotes strict token result) :
    ∃ least, ∀ depth,
      Takes (least ≤ depth) (stringValue strict (depth + 1) token)
        [] result := by
  unfold StringDenotes at hValue
  split at hValue
  · rename_i text hLiteral
    rcases hValue with ⟨found, hDecode⟩
    rcases Json.exists_least hDecode with ⟨least, hLeast⟩
    refine ⟨least - 1, fun depth => ?_⟩
    simp only [stringValue, hLiteral, hLeast]
    by_cases hDepth : least ≤ depth + 1
    · rw [if_pos hDepth]
      exact Takes.pure.congr (iff_of_true trivial (by omega))
    · rw [if_neg hDepth]
      exact fun _ _ _ _ => ⟨by omega, rfl⟩
  · rename_i hPlain
    refine ⟨0, fun depth => ?_⟩
    unfold stringValue
    split
    · rename_i text hLiteral
      exact absurd hLiteral (hPlain text rfl)
    · exact hValue ▸ Takes.pure.congr
        (iff_of_true trivial depth.zero_le)

/- A constant begins with a token that can begin one. -/
theorem Denotes.exists_first
    {result : Value}
    (hDenotes : Denotes strict tokens result) :
    ∃ first more,
      tokens = first :: more ∧ first.kind ∈ valueStarts := by
  cases hDenotes with
  | name hKind => exact ⟨_, _, rfl, by simp [hKind, valueStarts]⟩
  | number hKind => exact ⟨_, _, rfl, by simp [hKind, valueStarts]⟩
  | string hKind => exact ⟨_, _, rfl, by simp [hKind, valueStarts]⟩
  | trueWord hKind =>
      exact ⟨_, _, rfl, by simp [hKind, valueStarts]⟩
  | falseWord hKind =>
      exact ⟨_, _, rfl, by simp [hKind, valueStarts]⟩
  | nullWord hKind =>
      exact ⟨_, _, rfl, by simp [hKind, valueStarts]⟩
  | emptyList hKind =>
      exact ⟨_, _, rfl, by simp [hKind, valueStarts]⟩
  | list hKind => exact ⟨_, _, rfl, by simp [hKind, valueStarts]⟩
  | emptyMap hKind =>
      exact ⟨_, _, rfl, by simp [hKind, valueStarts]⟩
  | map hKind => exact ⟨_, _, rfl, by simp [hKind, valueStarts]⟩

/- Items begin with a token other than the closing bracket. -/
theorem ItemsDenote.exists_first
    {values : List Value}
    (hItems : ItemsDenote strict tokens values) :
    ∃ first more,
      tokens = first :: more ∧ first.kind ≠ .rightBracket := by
  have hOther :
      ∀ token : Token, token.kind ∈ valueStarts →
        token.kind ≠ .rightBracket := by
    intro token hStarts hKind
    rw [hKind] at hStarts
    simp [valueStarts] at hStarts
  cases hItems with
  | last hItem =>
      rcases hItem.exists_first with ⟨first, more, rfl, hFirst⟩
      exact ⟨first, _, rfl, hOther first hFirst⟩
  | more hItem =>
      rcases hItem.exists_first with ⟨first, more, rfl, hFirst⟩
      exact ⟨first, _, rfl, hOther first hFirst⟩

/- Fields begin with a name. -/
theorem FieldsDenote.exists_first
    {earlier fields : Fields Value}
    (hFields : FieldsDenote strict earlier tokens fields) :
    ∃ first more,
      tokens = first :: more ∧ first.kind = .identifier := by
  cases hFields with
  | last hName => exact ⟨_, _, rfl, hName⟩
  | more hName => exact ⟨_, _, rfl, hName⟩

section Containers

variable {depth least : Nat}

/- Items between brackets are read as a list. -/
theorem takes_list
    {opening : Token}
    {values : List Value}
    (hOpening : opening.kind = .leftBracket)
    (hItems : ItemsDenote strict tokens values)
    (hTakes :
      ∀ fuel, tokens.length < fuel →
        Takes (least ≤ depth) (items (value strict depth) fuel)
          tokens values) :
    Takes (least ≤ depth) (value strict (depth + 1))
      (opening :: tokens) (.list values) := by
  rcases hItems.exists_first with ⟨first, more, rfl, hFirst⟩
  refine .current ?_
  simp only [hOpening]
  refine .advance ?_
  rw [list_eq]
  refine .choice_other (by simpa using hFirst) ?_
  exact .fuelled fun fuel hFuel =>
    (hTakes fuel hFuel).map (f := Value.list)

/- Fields between braces are read as a map. -/
theorem takes_map
    {opening : Token}
    {entries : Fields Value}
    (hOpening : opening.kind = .leftBrace)
    (hFields : FieldsDenote strict [] tokens entries)
    (hTakes :
      ∀ fuel, tokens.length < fuel →
        Takes (least ≤ depth)
          (fields (value strict depth) fuel []) tokens entries) :
    Takes (least ≤ depth) (value strict (depth + 1))
      (opening :: tokens) (.map entries) := by
  rcases hFields.exists_first with ⟨first, more, rfl, hFirst⟩
  refine .current ?_
  simp only [hOpening]
  refine .advance ?_
  rw [map_eq]
  refine .choice_other (by simp [hFirst]) ?_
  exact .fuelled fun fuel hFuel =>
    (hTakes fuel hFuel).map (f := Value.map)

end Containers

mutual

/- What denotes a constant is read as it from some depth on, and nothing more. -/
theorem takes_value :
    ∀ {tokens : List Token} {result : Value},
      Denotes strict tokens result →
      ∃ least, ∀ depth,
        Takes (least ≤ depth) (value strict depth) tokens result
  | _, _, .name hKind => by
    refine exists_least_of_token fun depth => .current ?_
    simp only [hKind]
    exact .advance .pure
  | _, _, .number hKind => by
    refine exists_least_of_token fun depth => .current ?_
    simp only [hKind]
    exact .advance .pure
  | _, _, .string hKind hValue => by
    rcases takes_stringValue hValue with ⟨least, hTakes⟩
    refine exists_least_of_succ least fun depth =>
      .current ?_
    simp only [hKind]
    exact .advance (hTakes depth)
  | _, _, .trueWord hKind => by
    refine exists_least_of_token fun depth => .current ?_
    simp only [hKind]
    exact .advance .pure
  | _, _, .falseWord hKind => by
    refine exists_least_of_token fun depth => .current ?_
    simp only [hKind]
    exact .advance .pure
  | _, _, .nullWord hKind => by
    refine exists_least_of_token fun depth => .current ?_
    simp only [hKind]
    exact .advance .pure
  | _, _, .emptyList hOpening hClosing => by
    refine exists_least_of_succ 0 fun depth =>
      .current ?_
    simp only [hOpening]
    refine .advance ?_
    rw [list_eq]
    exact .choice_taken (by simp [hClosing])
      (Takes.pure.congr (iff_of_true trivial depth.zero_le))
  | _, _, .list hOpening hItems => by
    rcases takes_items hItems with ⟨least, hTakes⟩
    exact exists_least_of_succ least fun depth =>
      takes_list hOpening hItems (hTakes depth)
  | _, _, .emptyMap hOpening hClosing => by
    refine exists_least_of_succ 0 fun depth =>
      .current ?_
    simp only [hOpening]
    refine .advance ?_
    rw [map_eq]
    exact .choice_taken (by simp [hClosing])
      (Takes.pure.congr (iff_of_true trivial depth.zero_le))
  | _, _, .map hOpening hFields => by
    rcases takes_fields hFields with ⟨least, hTakes⟩
    exact exists_least_of_succ least fun depth =>
      takes_map hOpening hFields (hTakes depth)

theorem takes_items :
    ∀ {tokens : List Token} {values : List Value},
      ItemsDenote strict tokens values →
      ∃ least, ∀ depth fuel, tokens.length < fuel →
        Takes (least ≤ depth) (items (value strict depth) fuel)
          tokens values
  | _, _, .last hItem hClosing => by
    rcases takes_value hItem with ⟨least, hTakes⟩
    refine ⟨least, fun depth fuel hFuel => ?_⟩
    obtain ⟨fuel, rfl⟩ : ∃ less, fuel = less + 1 :=
      Nat.exists_eq_succ_of_ne_zero (by omega)
    rw [items_succ]
    refine ((hTakes depth).bind ?_).congr (and_iff_left trivial)
    refine takes_oneOf (by simp [hClosing]) ?_
    rw [if_neg (by simp [hClosing])]
    exact .pure
  | _, _, .more hItem hComma hRest => by
    rcases takes_value hItem with ⟨least, hTakes⟩
    rcases takes_items hRest with ⟨leastRest, hMore⟩
    refine ⟨max least leastRest, fun depth fuel hFuel => ?_⟩
    obtain ⟨fuel, rfl⟩ : ∃ less, fuel = less + 1 :=
      Nat.exists_eq_succ_of_ne_zero (by omega)
    simp only [List.length_append, List.length_cons] at hFuel
    rw [items_succ]
    refine ((hTakes depth).bind ?_).congr Nat.max_le.symm
    refine takes_oneOf (by simp [hComma]) ?_
    rw [if_pos hComma]
    exact (hMore depth fuel (by omega)).map

theorem takes_fields :
    ∀ {tokens : List Token} {earlier entries : Fields Value},
      FieldsDenote strict earlier tokens entries →
      ∃ least, ∀ depth fuel, tokens.length < fuel →
        Takes (least ≤ depth)
          (fields (value strict depth) fuel earlier) tokens entries
  | _, _, _, .last hName hColon hValue hClosing => by
    rcases takes_value hValue with ⟨least, hTakes⟩
    refine ⟨least, fun depth fuel hFuel => ?_⟩
    obtain ⟨fuel, rfl⟩ : ∃ less, fuel = less + 1 :=
      Nat.exists_eq_succ_of_ne_zero (by omega)
    rw [fields_succ]
    refine takes_oneOf (by simp [hName]) ?_
    refine takes_oneOf (by simp [hColon]) ?_
    refine ((hTakes depth).bind ?_).congr (and_iff_left trivial)
    refine takes_oneOf (by simp [hClosing]) ?_
    rw [if_neg (by simp [hClosing])]
    exact .pure
  | _, _, _, .more hName hColon hValue hComma hRest => by
    rcases takes_value hValue with ⟨least, hTakes⟩
    rcases takes_fields hRest with ⟨leastRest, hMore⟩
    refine ⟨max least leastRest, fun depth fuel hFuel => ?_⟩
    obtain ⟨fuel, rfl⟩ : ∃ less, fuel = less + 1 :=
      Nat.exists_eq_succ_of_ne_zero (by omega)
    simp only [List.length_append, List.length_cons] at hFuel
    rw [fields_succ]
    refine takes_oneOf (by simp [hName]) ?_
    refine takes_oneOf (by simp [hColon]) ?_
    refine ((hTakes depth).bind ?_).congr Nat.max_le.symm
    refine takes_oneOf (by simp [hComma]) ?_
    rw [if_pos hComma]
    exact hMore depth fuel (by omega)

end

------------------------------------------------------------
-- One Constant From One Place
------------------------------------------------------------

/-
  No two constants begin at one place: the tokens of one are
  not the first tokens of another, and they denote one value.
-/
theorem Denotes.unique
    {others rest more : List Token}
    {result other : Value}
    (hDenotes : Denotes strict tokens result)
    (hOther : Denotes strict others other)
    (hSame : tokens ++ rest = others ++ more) :
    tokens = others ∧ result = other ∧ rest = more := by
  rcases takes_value hDenotes with ⟨least, hTakes⟩
  rcases takes_value hOther with ⟨leastOther, hTakesOther⟩
  let close := Token.endAt .start
  let cursor := Cursor.start (tokens ++ (rest ++ [close]))
  have hCursor : cursor.rest = tokens ++ (rest ++ [close]) :=
    Cursor.rest_start (by simp)
  have hCursorOther : cursor.rest = others ++ (more ++ [close]) := by
    rw [hCursor, ← List.append_assoc, hSame, List.append_assoc]
  rcases (hTakes (max least leastOther)).exists_ok
      (Nat.le_max_left _ _) (by simp) hCursor with
    ⟨after, hOk, hAfter⟩
  rcases (hTakesOther (max least leastOther)).of_ok (by simp)
      hCursorOther hOk with ⟨-, rfl, hAfterOther⟩
  have hRest : rest = more :=
    List.append_cancel_right (hAfter.symm.trans hAfterOther)
  subst hRest
  exact ⟨List.append_cancel_right hSame, rfl, rfl⟩

mutual

/- No token of a constant marks the end of a script. -/
theorem Denotes.kind_ne_end :
    ∀ {tokens : List Token} {result : Value},
      Denotes strict tokens result →
      ∀ token ∈ tokens, token.kind ≠ .endOfInput
  | _, _, .name hKind => by simp [hKind]
  | _, _, .number hKind => by simp [hKind]
  | _, _, .string hKind _ => by simp [hKind]
  | _, _, .trueWord hKind => by simp [hKind]
  | _, _, .falseWord hKind => by simp [hKind]
  | _, _, .nullWord hKind => by simp [hKind]
  | _, _, .emptyList hOpening hClosing => by
    simp [hOpening, hClosing]
  | _, _, .list hOpening hItems =>
    List.forall_mem_cons.mpr
      ⟨by simp [hOpening], hItems.kind_ne_end⟩
  | _, _, .emptyMap hOpening hClosing => by
    simp [hOpening, hClosing]
  | _, _, .map hOpening hFields =>
    List.forall_mem_cons.mpr
      ⟨by simp [hOpening], hFields.kind_ne_end⟩

theorem ItemsDenote.kind_ne_end :
    ∀ {tokens : List Token} {values : List Value},
      ItemsDenote strict tokens values →
      ∀ token ∈ tokens, token.kind ≠ .endOfInput
  | _, _, .last hItem hClosing =>
    List.forall_mem_append.mpr
      ⟨hItem.kind_ne_end, by simp [hClosing]⟩
  | _, _, .more hItem hComma hRest =>
    List.forall_mem_append.mpr
      ⟨hItem.kind_ne_end, List.forall_mem_cons.mpr
        ⟨by simp [hComma], hRest.kind_ne_end⟩⟩

theorem FieldsDenote.kind_ne_end :
    ∀ {tokens : List Token} {earlier entries : Fields Value},
      FieldsDenote strict earlier tokens entries →
      ∀ token ∈ tokens, token.kind ≠ .endOfInput
  | _, _, _, .last hName hColon hValue hClosing =>
    List.forall_mem_cons.mpr ⟨by simp [hName],
      List.forall_mem_cons.mpr ⟨by simp [hColon],
        List.forall_mem_append.mpr
          ⟨hValue.kind_ne_end, by simp [hClosing]⟩⟩⟩
  | _, _, _, .more hName hColon hValue hComma hRest =>
    List.forall_mem_cons.mpr ⟨by simp [hName],
      List.forall_mem_cons.mpr ⟨by simp [hColon],
        List.forall_mem_append.mpr
          ⟨hValue.kind_ne_end, List.forall_mem_cons.mpr
            ⟨by simp [hComma], hRest.kind_ne_end⟩⟩⟩⟩

end

------------------------------------------------------------
-- Reading From A Place
------------------------------------------------------------

/-
  Reading a constant from the token at an index gives a value
  and leaves the tokens from another index on.
-/
def ReadsTo
    (strict : Bool)
    (tokens : List Token)
    (position : Nat)
    (result : Value)
    (stop : Nat) : Prop :=
  ∃ after,
    read strict ((Cursor.start tokens).skip position) =
        .ok result after ∧
      after.rest = tokens.drop stop

/- Reading a constant from the token at an index hits the limit of nesting. -/
def HitsLimit
    (strict : Bool)
    (tokens : List Token)
    (position : Nat) : Prop :=
  ∃ error after,
    read strict ((Cursor.start tokens).skip position) =
        .error error after ∧
      error.isDepthLimit = true

variable {position stop : Nat}
variable {result : Value}

/- The tokens of a constant stand at their place, before the end. -/
theorem Denotes.extent
    (hTokens : AreClosed tokens)
    (hDenotes :
      Denotes strict ((tokens.take stop).drop position) result) :
    ((Cursor.start tokens).skip position).rest =
        (tokens.take stop).drop position ++ tokens.drop stop ∧
      position < stop ∧ stop < tokens.length := by
  rcases hDenotes.exists_first with ⟨first, more, hFirst, -⟩
  have hLength := congrArg List.length hFirst
  simp only [List.length_drop, List.length_take, List.length_cons]
    at hLength
  have hStop : stop < tokens.length := by
    by_contra hBeyond
    rcases hTokens with ⟨front, close, rfl, hClose, -⟩
    have hWhole : (front ++ [close]).take stop = front ++ [close] :=
      List.take_of_length_le (Nat.le_of_not_lt hBeyond)
    have hPosition : position ≤ front.length := by
      simp only [List.length_append, List.length_singleton]
        at hLength
      omega
    rw [hWhole] at hDenotes
    refine hDenotes.kind_ne_end close ?_ hClose
    rw [List.drop_append_of_le_length hPosition]
    simp
  refine ⟨?_, by omega, hStop⟩
  rw [hTokens.closed_start.rest_skip position
    (by rw [hTokens.rest_start]; omega), hTokens.rest_start]
  conv_lhs => rw [← List.take_append_drop stop tokens]
  rw [List.drop_append_of_le_length]
  rw [List.length_take]
  omega

/- What is read from a place is what its tokens denote. -/
theorem ReadsTo.denotes
    (hTokens : AreClosed tokens)
    (hPosition : position < tokens.length)
    (hReads : ReadsTo strict tokens position result stop) :
    Denotes strict ((tokens.take stop).drop position) result := by
  rcases hReads with ⟨after, hOk, hAfter⟩
  have hClosed := hTokens.closed_start.skip position
  rcases (construes_value strict maxDepth).of_ok hClosed hOk with
    ⟨taken, hPasses, hDenotes⟩
  have hRest := hPasses.rest
  rw [hTokens.closed_start.rest_skip position
    (by rwa [hTokens.rest_start]), hTokens.rest_start, hAfter]
    at hRest
  have hStop : stop < tokens.length := by
    by_contra hBeyond
    rw [List.drop_of_length_le (Nat.le_of_not_lt hBeyond)]
      at hAfter
    exact after.rest_ne_nil hAfter
  have hLength := congrArg List.length hRest
  simp only [List.length_drop, List.length_append] at hLength
  have hTaken : (tokens.take stop).drop position = taken := by
    rw [List.drop_take, hRest]
    exact List.take_left' (by omega)
  rwa [hTaken]

/- Nesting aside, what tokens denote is read from their place. -/
theorem Denotes.readsTo
    (hTokens : AreClosed tokens)
    (hDenotes :
      Denotes strict ((tokens.take stop).drop position) result)
    (hLimit : ¬ HitsLimit strict tokens position) :
    ReadsTo strict tokens position result stop := by
  rcases hDenotes.extent hTokens with ⟨hRest, -, hStop⟩
  rcases takes_value hDenotes with ⟨least, hTakes⟩
  have hEnds := hTakes maxDepth _ _ (by simpa using hStop) hRest
  unfold Parse.Ends at hEnds
  split at hEnds
  · rename_i found after hOk
    rcases hEnds with ⟨-, rfl, hAfter⟩
    exact ⟨after, hOk, hAfter⟩
  · rename_i error after hError
    exact absurd ⟨error, after, hError, hEnds.2⟩ hLimit

/- What is read from a place does not depend on the tokens after it. -/
theorem ReadsTo.of_take_eq
    {others : List Token}
    (hTokens : AreClosed tokens)
    (hPosition : position < tokens.length)
    (hReads : ReadsTo strict tokens position result stop)
    (hOthers : AreClosed others)
    (hSame : others.take stop = tokens.take stop) :
    ReadsTo strict others position result stop := by
  have hDenotes := hReads.denotes hTokens hPosition
  rcases hDenotes.extent hTokens with ⟨hRest, -, hStop⟩
  rcases takes_value hDenotes with ⟨least, hTakes⟩
  rcases hReads with ⟨after, hOk, -⟩
  have hFits : least ≤ maxDepth :=
    ((hTakes maxDepth).of_ok (by simpa using hStop) hRest hOk).1
  rw [← hSame] at hDenotes hTakes
  rcases hDenotes.extent hOthers with ⟨hRestOther, -, hStopOther⟩
  exact (hTakes maxDepth).exists_ok hFits
    (by simpa using hStopOther) hRestOther

/-
  From any place among tokens that end in their only end
  marker, a constant is read exactly if it is one by the
  grammar and the limit of nesting is not hit. By the grammar
  at most one constant begins at a place. A constant that is
  read has a token at least, it ends before the end marker,
  and whatever comes after it, the same is read.
-/
theorem readsTo_iff_denotes
    (strict : Bool)
    {tokens : List Token}
    {position : Nat}
    (hTokens : AreClosed tokens)
    (hPosition : position < tokens.length) :
    (∀ result stop,
      ReadsTo strict tokens position result stop ↔
        Denotes strict ((tokens.take stop).drop position) result ∧
          ¬ HitsLimit strict tokens position) ∧
    (∀ result stop other stopOther,
      Denotes strict ((tokens.take stop).drop position) result →
      Denotes strict ((tokens.take stopOther).drop position)
        other →
      other = result ∧ stopOther = stop) ∧
    ∀ result stop,
      ReadsTo strict tokens position result stop →
      position < stop ∧ stop < tokens.length ∧
        ∀ others, AreClosed others →
          others.take stop = tokens.take stop →
          ReadsTo strict others position result stop := by
  refine ⟨fun result stop => ⟨fun hReads => ⟨?_, ?_⟩, ?_⟩,
    fun result stop other stopOther hDenotes hOther => ?_,
    fun result stop hReads => ?_⟩
  · exact hReads.denotes hTokens hPosition
  · rintro ⟨error, failed, hError, -⟩
    rcases hReads with ⟨after, hOk, -⟩
    rw [hOk] at hError
    cases hError
  · exact fun hBoth => hBoth.1.readsTo hTokens hBoth.2
  · rcases hDenotes.extent hTokens with ⟨hRest, -, hStop⟩
    rcases hOther.extent hTokens with ⟨hRestOther, -, hStopOther⟩
    rcases hDenotes.unique hOther (hRest.symm.trans hRestOther) with
      ⟨-, rfl, hLeft⟩
    have hLength := congrArg List.length hLeft
    simp only [List.length_drop] at hLength
    exact ⟨rfl, by omega⟩
  · rcases (hReads.denotes hTokens hPosition).extent hTokens with
      ⟨-, hStart, hStop⟩
    exact ⟨hStart, hStop, fun others =>
      hReads.of_take_eq hTokens hPosition⟩

/- The tokens of a map in which a name is repeated, and a semicolon. -/
def repeatedName : List Token :=
  [⟨.leftBrace, "\x7b", ⟨.start, .start⟩, none⟩,
    ⟨.identifier, "a", ⟨.start, .start⟩, none⟩,
    ⟨.colon, ":", ⟨.start, .start⟩, none⟩,
    ⟨.number, "1", ⟨.start, .start⟩, some (.int 1)⟩,
    ⟨.comma, ",", ⟨.start, .start⟩, none⟩,
    ⟨.identifier, "a", ⟨.start, .start⟩, none⟩,
    ⟨.colon, ":", ⟨.start, .start⟩, none⟩,
    ⟨.string, "'[2]'", ⟨.start, .start⟩, some (.text "[2]")⟩,
    ⟨.rightBrace, "\x7d", ⟨.start, .start⟩, none⟩,
    ⟨.semicolon, ";", ⟨.start, .start⟩, none⟩,
    .endAt .start]

/- The map is read up to the semicolon, so that its tokens denote it. -/
theorem readsTo_iff_denotes_repeated :
    ReadsTo true repeatedName 0
        (.map [("a", .list [.int 2])]) 9 ∧
      Denotes true ((repeatedName.take 9).drop 0)
        (.map [("a", .list [.int 2])]) := by
  have hClosed : AreClosed repeatedName :=
    ⟨repeatedName.dropLast, .endAt .start, rfl, rfl, by decide⟩
  have hReads :
      ReadsTo true repeatedName 0
        (.map [("a", .list [.int 2])]) 9 :=
    ⟨_, rfl, rfl⟩
  have hPosition : 0 < repeatedName.length := by decide
  have hBoth := readsTo_iff_denotes true hClosed hPosition
  exact ⟨hReads, ((hBoth.1 _ _).mp hReads).1⟩

end Embedded

end ExperimentScript
