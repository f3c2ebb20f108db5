import ExperimentScript.Proofs.Parser.Outcome

/-
  What steps of reading give, wherever they start.

  `Parse.Yields` says of a step that, from any place among the
  tokens of an origin, it leaves a suffix of those tokens and
  gives a good result if it does not fail. The statement is
  closed under every way in which productions put steps
  together, so that a production yields what its parts allow.

  Key definitions include:
    * `ExperimentScript.Parse.Yields`

  Main declarations:
    * `ExperimentScript.Parse.Yields.bind`
    * `ExperimentScript.Parse.Yields.suffix_of_advance`
-/

namespace ExperimentScript

------------------------------------------------------------
-- Moving On
------------------------------------------------------------

namespace Cursor

/- The next place has no more tokens left. -/
theorem rest_next_suffix (cursor : Cursor) :
    cursor.next.rest <:+ cursor.rest := by
  cases hAhead : cursor.ahead with
  | nil => simp [next, rest, hAhead]
  | cons token tokens =>
      simp only [next, rest, hAhead]
      exact List.suffix_cons _ _

end Cursor

namespace Parse

variable {α β : Type}

------------------------------------------------------------
-- Yielding
------------------------------------------------------------

/-
  From any place among the tokens of an origin a step fails,
  or stays among them and gives something good.
-/
def Yields
    (origin : Cursor)
    (step : Parse α)
    (good : α → Prop) : Prop :=
  ∀ cursor, cursor.rest <:+ origin.rest →
    step.Ends cursor
      (fun result after =>
        after.rest <:+ origin.rest ∧ good result)
      (fun _ => True)

namespace Yields

variable {origin : Cursor} {good : α → Prop}

/- What a step that yields has given and left. -/
theorem of_ok
    {step : Parse α}
    {cursor after : Cursor}
    {result : α}
    (hStep : Yields origin step good)
    (hCursor : cursor.rest <:+ origin.rest)
    (hOk : step cursor = .ok result after) :
    after.rest <:+ origin.rest ∧ good result :=
  (hStep cursor hCursor).of_ok hOk

theorem bind
    {between : β → Prop}
    {first : Parse β}
    {second : β → Parse α}
    (hFirst : Yields origin first between)
    (hSecond :
      ∀ result, between result → Yields origin (second result) good) :
    Yields origin (first >>= second) good := by
  intro cursor hCursor
  rw [ends_bind]
  exact (hFirst cursor hCursor).mono
    (fun result after hAfter =>
      hSecond result hAfter.2 after hAfter.1)
    (fun _ hFailed => hFailed)

theorem pure
    {result : α}
    (hGood : good result) :
    Yields origin (Pure.pure result) good :=
  fun _ hCursor => ⟨hCursor, hGood⟩

theorem mono
    {better : α → Prop}
    {step : Parse α}
    (hStep : Yields origin step good)
    (hBetter : ∀ result, good result → better result) :
    Yields origin step better := fun cursor hCursor =>
  (hStep cursor hCursor).mono
    (fun result _ hAfter => ⟨hAfter.1, hBetter result hAfter.2⟩)
    (fun _ hFailed => hFailed)

/- A step that only fails yields anything. -/
theorem unexpected :
    Yields origin (Parse.unexpected : Parse α) good :=
  fun _ _ => trivial

theorem throw (error : SyntaxError) :
    Yields origin (MonadExcept.throw error : Parse α) good :=
  fun _ _ => trivial

theorem tooDeep (cause : SyntaxCause) :
    Yields origin (Parse.tooDeep cause : Parse α) good :=
  fun _ _ => trivial

theorem get : Yields origin get fun _ => True :=
  fun _ hCursor => ⟨hCursor, trivial⟩

theorem current :
    Yields origin Parse.current fun token => token ∈ origin.rest :=
  fun _ hCursor =>
    ⟨hCursor, hCursor.subset (List.mem_cons_self ..)⟩

theorem advance :
    Yields origin Parse.advance fun token => token ∈ origin.rest :=
  fun cursor hCursor =>
    ⟨cursor.rest_next_suffix.trans hCursor,
      hCursor.subset (List.mem_cons_self ..)⟩

theorem followingKind :
    Yields origin Parse.followingKind fun _ => True :=
  fun _ hCursor => ⟨hCursor, trivial⟩

theorem seek (kinds : List TokenKind) :
    Yields origin (Parse.seek kinds) fun _ => True :=
  fun _ hCursor => ⟨hCursor, trivial⟩

theorem check (kind : TokenKind) :
    Yields origin (Parse.check kind) fun _ => True :=
  fun _ hCursor => ⟨hCursor, trivial⟩

theorem spanFrom (start : Span) :
    Yields origin (Parse.spanFrom start) fun _ => True :=
  fun _ hCursor => ⟨hCursor, trivial⟩

theorem accept (kind : TokenKind) :
    Yields origin (Parse.accept kind) fun _ => True := by
  refine bind (check kind) fun found _ => ?_
  split
  · exact bind advance fun _ _ => pure trivial
  · exact pure trivial

theorem expect (kind : TokenKind) :
    Yields origin (Parse.expect kind) fun token =>
      token ∈ origin.rest ∧ token.kind = kind := by
  intro cursor hCursor
  rw [ends_expect]
  split
  · rename_i hKind
    exact
      ⟨cursor.rest_next_suffix.trans hCursor,
        hCursor.subset (List.mem_cons_self ..), hKind⟩
  · trivial

/- A step whose result does not matter. -/
theorem step
    {between : β → Prop}
    {first : Parse β}
    {second : β → Parse α}
    (hFirst : Yields origin first between)
    (hSecond : ∀ result, Yields origin (second result) good) :
    Yields origin (first >>= second) good :=
  bind hFirst fun result _ => hSecond result

/- A production ends by marking what it gives with a span. -/
theorem spanned
    {start : Span}
    {mark : Span → α}
    (hGood : ∀ span, good (mark span)) :
    Yields origin
      (Parse.spanFrom start >>= fun span => Pure.pure (mark span))
      good :=
  bind (spanFrom start) fun span _ => pure (hGood span)

/- A step that first takes a token leaves less than it started with. -/
theorem suffix_of_advance
    {tail : Parse α}
    {cursor after : Cursor}
    {result : α}
    (hTail : Yields cursor.next tail good)
    (hOk :
      (do let _ ← Parse.advance; tail) cursor =
        .ok result after) :
    after.rest <:+ cursor.next.rest :=
  (hTail.of_ok (List.suffix_refl _) hOk).1

end Yields

end Parse

end ExperimentScript
