import ExperimentScript.Proofs.Parser.Abreast
import ExperimentScript.Proofs.Parser.Denotes

/-
  What strict reading changes.

  The same tokens are read in both modes. As long as no string
  turns out to be no JSON both runs do the same at the same
  places, and the trees that they build are the same but for
  the values of embedded constants. These are what the tokens
  of the constant stand for in each mode, and only strings
  stand for different values.

  Key definitions include:
    * `ExperimentScript.Embedded.IsNoJson`
    * `ExperimentScript.Embedded.InConstant`
    * `ExperimentScript.Embedded.Rereads`

  Main declarations:
    * `ExperimentScript.parseTokens_strict`
-/

namespace ExperimentScript

open Parse

------------------------------------------------------------
-- What May Differ
------------------------------------------------------------

namespace Embedded

/- An error says that a string is no JSON, which it is not. -/
structure IsNoJson (error : SyntaxError) : Prop where
  cause : error.cause = .notJson
  expected : error.expected = []
  kind : error.found.kind = .string
  undecoded :
    ∃ text depth,
      error.found.literal = some (.text text) ∧
        Json.decode depth text = .error .notJson

/-
  An error comes from strictly reading the embedded constant
  after an at-sign among some tokens.
-/
def InConstant
    (source : List Token)
    (error : SyntaxError) : Prop :=
  ∃ sign stop : Cursor,
    sign.rest <:+ source ∧
      sign.current.kind = .at ∧
      read true sign.next = .error error stop

/-
  Two values are what the tokens after an at-sign stand for
  when strings stand for their texts and when they are read in
  a given mode. The values are the same but for texts that are
  read as JSON, and a mark spans the sign and these tokens.
-/
def Rereads
    (strict : Bool)
    (source : List Token)
    (value other : Value)
    (mark : Span) : Prop :=
  ∃ sign tokens,
    sign :: tokens <:+: source ∧
      sign.kind = .at ∧
      mark = sign.span.through (tokens.getLastD sign).span ∧
      Denotes false tokens value ∧
      Denotes strict tokens other ∧
      value.SameBut Decodes other

end Embedded

------------------------------------------------------------
-- Both Modes
------------------------------------------------------------

open Embedded

/- Neither of two runs has tokens from a fork on. -/
theorem Pairing.no_fork :
    ([] : List Token) = [] ↔ ([] : List Token) = [] :=
  Iff.rfl

/-
  Both runs read the same tokens to their end. The second one
  is diverted where it stops after a string that is no JSON
  before the place of the first.
-/
def Pairing.modes
    (source : List Token)
    (context : SyntaxError → Prop) :
    Pairing where
  source := source
  first := []
  second := []
  barred := False
  ignored _ := False
  diverted place error stop :=
    ∃ found,
      error = some found ∧
        (found.isDepthLimit = true ∨
          (IsNoJson found ∧
            context found ∧
            found.found :: stop.rest <:+ source ∧
            place.rest <:+ stop.rest))
  empty_iff := no_fork
  whole _ := by
    rintro ⟨found, ⟨⟩, -⟩
  waits hDiverted hRest := by
    rcases hDiverted with ⟨found, hError, hFound⟩
    refine ⟨found, hError, hFound.imp_right ?_⟩
    rintro ⟨hNo, hContext, hWithin, hStop⟩
    exact ⟨hNo, hContext, hWithin, hRest.trans hStop⟩
  goesOn hDiverted _ := by
    rcases hDiverted with ⟨found, ⟨⟩, -⟩
  takes hFirst _ _ _ _ := absurd hFirst (Cursor.rest_ne_nil _)

namespace Pairing.Twin

variable {source : List Token}
variable {context : SyntaxError → Prop}
variable {power : Nat} {place other : Cursor}

/- Both runs have the same tokens left. -/
theorem rest_modes
    (hTwin : (modes source context).Twin power place other) :
    place.rest = other.rest := by
  rcases hTwin.level with ⟨before, hPlace, hOther⟩
  exact hPlace.trans hOther.symm

theorem current_modes
    (hTwin : (modes source context).Twin power place other) :
    place.current = other.current :=
  hTwin.current_eq (Cursor.rest_ne_nil _)

theorem of_modes
    {another : SyntaxError → Prop}
    (hTwin : (modes source context).Twin power place other) :
    (modes source another).Twin power place other :=
  ⟨hTwin.previous, hTwin.sought, hTwin.within, hTwin.level,
    hTwin.free, hTwin.closed, hTwin.closedOther⟩

end Pairing.Twin

/- More is known of the errors of the second run where it is known at all. -/
theorem Pairing.Relates.of_modes
    {α β : Type}
    {source : List Token}
    {context another : SyntaxError → Prop}
    {power : Nat}
    {related : α → β → Prop}
    {first : Parse α}
    {second : Parse β}
    {place other : Cursor}
    (hRelates :
      (modes source context).Relates (.inside power) related first
        second place other)
    (hContext :
      ∀ error stop, second other = .error error stop →
        context error → another error) :
    (modes source another).Relates (.inside power) related first
      second place other := by
  have hDiverts {after : Cursor}
      (hSame :
        (modes source context).Diverts after (second other)) :
      (modes source another).Diverts after (second other) := by
    unfold Diverts at hSame ⊢
    split
    · rename_i hStep
      rw [hStep] at hSame
      rcases hSame with ⟨_, ⟨⟩, -⟩
    · rename_i hStep
      rw [hStep] at hSame
      rcases hSame with ⟨found, hError, hFound⟩
      cases hError
      refine ⟨_, rfl, hFound.imp_right ?_⟩
      rintro ⟨hNo, hKnown, hRest⟩
      exact ⟨hNo, hContext _ _ hStep hKnown, hRest⟩
  unfold Relates at hRelates ⊢
  cases hStep : first place with
  | ok result after =>
      rw [hStep] at hRelates
      refine hRelates.imp_right
        (Or.imp hDiverts (Or.imp_right ?_))
      rintro ⟨same, stop, hOk, hSame, hTwin⟩
      exact ⟨same, stop, hOk, hSame, hTwin.of_modes⟩
  | error error after =>
      rw [hStep] at hRelates
      refine hRelates.imp_right (Or.imp_right
        (Or.imp hDiverts (Or.imp_right ?_)))
      rintro ⟨same, stop, hError, hEchoes⟩
      exact
        ⟨same, stop, hError, hEchoes.cause, hEchoes.expected,
          hEchoes.level, hEchoes.found, hEchoes.unexpected,
          hEchoes.informed, hEchoes.free⟩

------------------------------------------------------------
-- Strings
------------------------------------------------------------

namespace Embedded

/- What is made of a string is its text or what that is as JSON. -/
theorem sameBut_of_stringValue
    {strict : Bool}
    {depth : Nat}
    {token : Token}
    {json : Value}
    (hJson : stringValue strict depth token = pure json) :
    (token.literal.getD .null).SameBut Decodes json := by
  unfold stringValue at hJson
  split at hJson
  · rename_i text hLiteral
    rw [hLiteral]
    split at hJson
    · rename_i hDecode
      cases congrFun hJson (Cursor.start [])
      exact .text ⟨depth, hDecode⟩
    · cases congrFun hJson (Cursor.start [])
    · cases congrFun hJson (Cursor.start [])
  · cases congrFun hJson (Cursor.start [])
    exact .refl _

section Modes

variable {source : List Token}
variable (strict : Bool)

/- A string in lenient reading and in another mode. -/
theorem relates_string
    (depth : Nat)
    {place other : Cursor}
    (hTwin :
      (Pairing.modes source (fun _ => strict = true)).Twin 0 place
        other)
    (hKind :
      place.current.kind = .string ∨
        other.current.kind = .string) :
    (Pairing.modes source (fun _ => strict = true)).Relates
      (.inside 0) (Value.SameBut Decodes) (value false (depth + 1))
      (value strict (depth + 1)) place other := by
  have hSame := hTwin.current_modes
  have hPlace : place.current.kind = .string :=
    hKind.elim id fun hOther => hSame ▸ hOther
  have hEnd : place.current.kind ≠ .endOfInput :=
    hPlace ▸ nofun
  have hNext := hTwin.next (Cursor.rest_ne_nil _) hEnd
  refine .of_eq (value_of_string hPlace false depth)
    (value_of_string (hSame ▸ hPlace) strict depth) ?_
  rw [← hSame]
  have hText :
      stringValue false (depth + 1) place.current =
        pure (place.current.literal.getD .null) := rfl
  rw [hText]
  rcases stringValue_cases strict (depth + 1) place.current with
    ⟨json, hJson⟩ | ⟨hStrict, text, hLiteral, hDecode, hJson⟩ | hJson
  · rw [hJson]
    exact .pure hNext (sameBut_of_stringValue hJson)
  · rw [hJson]
    refine .inr (.inl ⟨_, rfl, .inr ⟨?_, hStrict, ?_, ?_⟩⟩)
    · exact ⟨rfl, rfl, hPlace, text, depth + 1, hLiteral, hDecode⟩
    · change place.current :: other.next.rest <:+ source
      rw [← hNext.rest_modes, ← hTwin.closed.rest_eq hEnd]
      exact hTwin.within
    · exact hNext.rest_modes ▸ List.suffix_refl _
  · rw [hJson]
    exact .inr (.inl ⟨_, rfl, .inl rfl⟩)

/- What is known of the errors that divert a run in a mode. -/
def Diversion
    (strict : Bool)
    (source : List Token)
    (error : SyntaxError) : Prop :=
  strict = true ∧ InConstant source error

/-
  An embedded constant in lenient reading and in another mode:
  both runs take the same tokens, and the values are what these
  stand for.
-/
theorem abreast_modes (source : List Token) :
    (Pairing.modes source (Diversion strict source)).Abreast false
      strict (Rereads strict source) where
  embedded {place other} hTwin hBefore hKind := by
    have hEnd : place.current.kind ≠ .endOfInput := hKind ▸ nofun
    have hOtherKind : other.current.kind = .at :=
      hTwin.current_modes ▸ hKind
    have hWithin : other.rest <:+ source :=
      hTwin.rest_modes ▸ hTwin.within
    refine .advance hTwin hEnd fun hSame hNext => ?_
    have hRead :
        (Pairing.modes source (Diversion strict source)).Relates
          (.inside 0) (Value.SameBut Decodes) (read false)
          (read strict) place.next other.next := by
      refine (Pairing.Relates.value (relates_string strict) maxDepth
        hNext.of_modes).of_modes fun error stop hError hStrict =>
          ⟨hStrict, other, stop, hWithin, hOtherKind, ?_⟩
      rw [← hStrict]
      exact hError
    refine .bind hNext hRead
      fun value same after stop hOk hOkOther hValues hAfter =>
        .spanned hAfter.of_zero _ (.embedded ?_)
    rcases (construes_value false maxDepth).of_ok hNext.closed hOk with
      ⟨tokens, hTokens, hLenient⟩
    rcases (construes_value strict maxDepth).of_ok hNext.closedOther
        hOkOther with
      ⟨others, hOthers, hStrict⟩
    have hTokensSame : tokens = others := by
      have hRest := hNext.rest_modes
      rw [hTokens.rest, hOthers.rest, hAfter.rest_modes] at hRest
      exact List.append_cancel_right hRest
    have hSign := (Cursor.Passes.next hTwin.closed hEnd).last
    refine
      ⟨place.current, tokens, ?_, hKind, ?_, hLenient, ?_, hValues⟩
    · have hRest := hTwin.closed.rest_eq hEnd
      rw [hTokens.rest] at hRest
      rcases hTwin.within with ⟨front, hFront⟩
      refine ⟨front, after.rest, Eq.trans ?_ hFront⟩
      rw [hRest, List.append_assoc]
      rfl
    · rw [← hTokens.last, ← hSign]
      rfl
    · rwa [hTokensSame]

end Modes

end Embedded

------------------------------------------------------------
-- Whole Scripts
------------------------------------------------------------

section Scripts

variable {tokens : List Token} (hTokens : AreClosed tokens)

include hTokens

/- A script in lenient reading and in another mode. -/
theorem relates_modes (strict : Bool) :
    (Pairing.modes tokens (Diversion strict tokens)).Relates .whole
      (Node.SameBut (Rereads strict tokens)) (script false)
      (script strict) (Cursor.start tokens)
      (Cursor.start tokens) :=
  (abreast_modes strict tokens).relates_script
    (.start hTokens rfl rfl)

/- Lenient reading never fails because of a string. -/
theorem cause_of_lenient
    {error : SyntaxError}
    {after : Cursor}
    (hError :
      script false (Cursor.start tokens) = .error error after) :
    error.cause ≠ .notJson := by
  intro hCause
  rcases (relates_modes hTokens false).of_error rfl hError with
    ⟨hLimit | hNever, -⟩ | hDiverts | ⟨_, _, -, hEchoes⟩
  · rw [SyntaxError.isDepthLimit, hCause] at hLimit
    cases hLimit
  · exact hNever
  · rw [hError] at hDiverts
    rcases hDiverts with ⟨_, ⟨⟩, hLimit | ⟨-, ⟨⟨⟩, -⟩, -⟩⟩
    rw [SyntaxError.isDepthLimit, hCause] at hLimit
    cases hLimit
  · rcases hEchoes.unexpected with hOther | hOther <;>
      rw [hCause] at hOther <;> cases hOther

/-
  Strictness only changes what strings in embedded constants
  stand for, the limit of nesting aside. What is read strictly
  is read leniently with the same tree but for these values.
  Where lenient reading fails, strict reading fails alike or at
  an earlier string that is no JSON, and it fails alone only
  at such a string of an embedded constant.
-/
theorem parseTokens_strict :
    (∀ strict, parseTokens true tokens = .ok strict →
      ∃ lenient,
        parseTokens false tokens = .ok lenient ∧
          lenient.SameBut (Rereads true tokens) strict) ∧
      (∀ error, parseTokens false tokens = .error error →
        error.isDepthLimit = false →
          ∃ index,
            FailsAt false tokens index error ∧
              (FailsAt true tokens index error ∨
                (∃ earlier found,
                  earlier < index ∧
                    FailsAt true tokens earlier found ∧
                    IsNoJson found ∧
                    InConstant tokens found) ∨
                ∃ found,
                  parseTokens true tokens = .error found ∧
                    found.isDepthLimit = true)) ∧
      ∀ lenient error,
        parseTokens false tokens = .ok lenient →
          parseTokens true tokens = .error error →
            error.isDepthLimit = true ∨
              (IsNoJson error ∧ InConstant tokens error) := by
  have hRelates := relates_modes hTokens true
  refine ⟨fun strict hStrict => ?_, fun error hError hLimit => ?_,
    fun lenient error hLenient hStrict => ?_⟩
  · rcases parseTokens_eq_ok_iff.mp hStrict with ⟨stop, hStop⟩
    rcases hRelates.exists_ok rfl hStop with
      ⟨lenient, after, hLenient, hTree⟩
    exact
      ⟨lenient, parseTokens_eq_ok_iff.mpr ⟨after, hLenient⟩, hTree⟩
  · rcases parseTokens_eq_error_iff.mp hError with ⟨after, hAfter⟩
    rcases exists_failsAt hTokens hAfter hLimit with
      ⟨index, hFailsAt⟩
    refine ⟨index, hFailsAt, ?_⟩
    rcases hRelates.of_error rfl hAfter with
      ⟨hDepth | hNever, -⟩ | hDiverts |
        ⟨same, stop, hSame, hEchoes⟩
    · rw [hLimit] at hDepth
      cases hDepth
    · exact hNever.elim
    · right
      rcases hDiverts.exists_error rfl with ⟨found, stop, hFound⟩
      rw [hFound] at hDiverts
      rcases hDiverts with
        ⟨_, ⟨⟩, hDepth | ⟨hNo, ⟨-, hContext⟩, -, hStop⟩⟩
      · exact .inr
          ⟨found, parseTokens_eq_error_iff.mpr ⟨stop, hFound⟩,
            hDepth⟩
      have hShallow : found.isDepthLimit = false := by
        rw [SyntaxError.isDepthLimit, hNo.cause]
      rcases exists_failsAt hTokens hFound hShallow with
        ⟨earlier, hEarlier⟩
      refine .inl ⟨earlier, found, ?_, hEarlier, hNo, hContext⟩
      have hLength := hFailsAt.length_eq hAfter
      have hLengthOther := hEarlier.length_eq hFound
      have hFuel := Cursor.fuel_le_of_suffix hStop
      rw [if_neg (cause_of_lenient hTokens hAfter)] at hLength
      rw [if_pos hNo.cause] at hLengthOther
      omega
    · left
      have hFound : same.found = error.found :=
        hEchoes.found.elim id fun hFork =>
          absurd hFork.1 after.rest_ne_nil
      have hError : same = error := by
        rcases same with ⟨cause, found, expected⟩
        rcases error with ⟨causeOther, foundOther, expectedOther⟩
        rw [SyntaxError.mk.injEq]
        exact ⟨hEchoes.cause, hFound, hEchoes.expected⟩
      rcases hFailsAt with ⟨front, back, _, hFront, hIndex, hRun, hRest⟩
      rw [hAfter] at hRun
      cases hRun
      rcases hEchoes.level with ⟨before, hPlace, hOther⟩
      rw [hError] at hSame
      exact ⟨front, back, stop, hFront, hIndex, hSame,
        (hOther.trans hPlace.symm).trans hRest⟩
  · rcases parseTokens_eq_ok_iff.mp hLenient with ⟨after, hAfter⟩
    rcases parseTokens_eq_error_iff.mp hStrict with ⟨stop, hStop⟩
    rcases hRelates.of_ok rfl hAfter with
      hDiverts | ⟨_, _, hOk, -⟩
    · rw [hStop] at hDiverts
      rcases hDiverts with ⟨_, ⟨⟩, hFound⟩
      exact hFound.imp_right fun hNo => ⟨hNo.1, hNo.2.1.2⟩
    · rw [hStop] at hOk
      cases hOk

end Scripts

/- The tokens of a script that is an embedded string. -/
def embeddedString : List Token :=
  [⟨.at, "@", ⟨.start, .start⟩, none⟩,
    ⟨.string, "\"5\"", ⟨.start, .start⟩, some (.text "5")⟩,
    .endAt .start]

/- A string that is a number in strict reading is one in lenient reading too. -/
theorem parseTokens_strict_string :
    AreClosed embeddedString ∧
      ∃ lenient,
        parseTokens false embeddedString = .ok lenient ∧
          lenient.SameBut (Rereads true embeddedString)
            (.sequence
              [.literal (.int 5) true ⟨.start, .start⟩]
              ⟨.start, Point.start.last⟩) := by
  have hClosed : AreClosed embeddedString :=
    ⟨embeddedString.dropLast, .endAt .start, rfl, rfl, by decide⟩
  exact ⟨hClosed, (parseTokens_strict hClosed).1 _ (by rfl)⟩

end ExperimentScript
