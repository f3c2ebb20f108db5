import ExperimentScript.Editor.Session
import ExperimentScript.Host
import ExperimentScript.Proofs.FileTree.Spelled
import ExperimentScript.Proofs.Json.Quoting
import ExperimentScript.Proofs.Lexer.Layout

/-
  What becomes of a document when the edit that formats it is
  made.

  Editors keep a document as UTF-16 code units, count
  characters in them, and end a line at a line feed, a
  carriage return or both. The range of the edit counts code
  points, and line feeds only. `Divided` takes a document
  line by line as editors do. At the first carriage return
  without a line feed both counts of lines part for good, and
  in the last line the characters part at the first code
  point of two units.

  Key definitions include:
    * `ExperimentScript.Text.units`
    * `ExperimentScript.Text.PairsReturns`
    * `ExperimentScript.Editor.offset`
    * `ExperimentScript.Editor.Edit.apply`

  Main declarations:
    * `ExperimentScript.Editor.wholeRange_eq`
    * `ExperimentScript.Editor.offset_lt_length`
    * `ExperimentScript.Editor.offset_eq_length_iff`
    * `ExperimentScript.Editor.formatEdit?_apply`
-/

namespace ExperimentScript

------------------------------------------------------------
-- Code Units
------------------------------------------------------------

/- The UTF-16 code units of a code point: a pair above `0xFFFF`. -/
def CodePoint.units (c : CodePoint) : List Nat :=
  if c.toNat < 0x10000 then
    [c.toNat]
  else
    let offset := c.toNat - 0x10000
    [0xD800 + offset / 0x400, 0xDC00 + offset % 0x400]

namespace Text

/- The UTF-16 code units of a text. -/
def units (text : Text) : List Nat :=
  text.flatMap CodePoint.units

/- Every carriage return of a text has a line feed right after it. -/
def PairsReturns (text : Text) : Prop :=
  ∀ before after,
    text = before ++ .char '\r' :: after →
      after.head? = some (.char '\n')

end Text

namespace Editor

------------------------------------------------------------
-- Positions In Documents
------------------------------------------------------------

/- Whether a code unit is a line feed or a carriage return. -/
def endsLine (unit : Nat) : Bool :=
  unit == 0x0A || unit == 0x0D

/- What comes after the end of a line, of one or two code units. -/
def afterEnd : List Nat → List Nat
  | 0x0D :: 0x0A :: rest => rest
  | _ :: rest => rest
  | [] => []

/- What comes after the first line, nothing if it is the only one. -/
def afterLine (units : List Nat) : List Nat :=
  afterEnd (units.dropWhile (!endsLine ·))

/-
  How many code units stand before a place. A character past
  the end of its line is that end, a line past the last one
  is the end of the document.
-/
def offset
    (line character : Nat)
    (units : List Nat) :
    Nat :=
  match line with
  | 0 => min character (units.takeWhile (!endsLine ·)).length
  | line + 1 =>
    units.length - (afterLine units).length +
      offset line character (afterLine units)

/- The code units of a document after an edit. -/
def Edit.apply
    (edit : Edit)
    (units : List Nat) :
    List Nat :=
  let start := edit.range.start
  let stop := edit.range.stop
  units.take (offset start.line start.character units) ++
    edit.text.units ++
      units.drop (offset stop.line stop.character units)

------------------------------------------------------------
-- Code Units Of Texts
------------------------------------------------------------

/- Only line feeds and carriage returns have units that end lines. -/
theorem endsLine_of_mem_units
    {c : CodePoint}
    {unit : Nat}
    (hFeed : c ≠ '\n')
    (hReturn : c ≠ '\r')
    (hMem : unit ∈ c.units) :
    endsLine unit = false := by
  have hNumber :
      ∀ d : CodePoint, c ≠ d → c.toNat ≠ d.toNat := by
    intro d hOther hSame
    rw [← Json.ofNat_toNat c, hSame, Json.ofNat_toNat] at hOther
    exact hOther rfl
  have hFeedNumber : c.toNat ≠ 0x0A := hNumber '\n' hFeed
  have hReturnNumber : c.toNat ≠ 0x0D := hNumber '\r' hReturn
  have hUnit : unit ≠ 0x0A ∧ unit ≠ 0x0D := by
    unfold CodePoint.units at hMem
    split at hMem
    · rw [List.mem_singleton] at hMem
      omega
    · simp only [List.mem_cons, List.not_mem_nil, or_false]
        at hMem
      omega
  simp [endsLine, hUnit]

/- Only line feeds have the unit of a line feed. -/
theorem feed_not_mem_units
    {c : CodePoint}
    (hFeed : c ≠ '\n') :
    0x0A ∉ c.units := by
  intro hMem
  by_cases hReturn : c = '\r'
  · cases hReturn
    revert hMem
    decide
  · cases endsLine_of_mem_units hFeed hReturn hMem

theorem length_units (c : CodePoint) :
    c.units.length = if c.toNat < 0x10000 then 1 else 2 := by
  unfold CodePoint.units
  split
  · rfl
  · rfl

@[simp] theorem units_nil : Text.units [] = [] := rfl

theorem units_cons (c : CodePoint) (text : Text) :
    Text.units (c :: text) = c.units ++ text.units := rfl

theorem units_append (text more : Text) :
    Text.units (text ++ more) = text.units ++ more.units :=
  List.flatMap_append

theorem length_le_units (text : Text) :
    text.length ≤ text.units.length := by
  induction text with
  | nil => exact Nat.zero_le _
  | cons c text ih =>
      rw [units_cons, List.length_append, length_units,
        List.length_cons]
      split
      · omega
      · omega

/- A text has as many code units as code points if each is one unit. -/
theorem units_length_le_iff (text : Text) :
    text.units.length ≤ text.length ↔
      ∀ c ∈ text, c.toNat < 0x10000 := by
  induction text with
  | nil => simp
  | cons c text ih =>
      have hText := length_le_units text
      rw [List.forall_mem_cons, ← ih, units_cons,
        List.length_append, length_units, List.length_cons]
      split
      · omega
      · omega

/- Line feeds are counted alike in code units and in code points. -/
theorem count_units (text : Text) :
    text.units.count 0x0A = text.count (.char '\n') := by
  induction text with
  | nil => rfl
  | cons c text ih =>
      rw [units_cons, List.count_append, ih, List.count_cons]
      by_cases hFeed : c = '\n'
      · cases hFeed
        rw [Nat.add_comm]
        rfl
      · have hUnits : c.units.count 0x0A = 0 := by
          refine List.count_eq_zero_of_not_mem fun hMem => ?_
          by_cases hReturn : c = '\r'
          · cases hReturn
            revert hMem
            decide
          · cases endsLine_of_mem_units hFeed hReturn hMem
        simp [hUnits, hFeed]

------------------------------------------------------------
-- Offsets
------------------------------------------------------------

section Offsets

variable {line character : Nat}
variable {units : List Nat}

theorem afterEnd_suffix (units : List Nat) :
    afterEnd units <:+ units := by
  unfold afterEnd
  split
  · exact ⟨[_, _], rfl⟩
  · exact ⟨[_], rfl⟩
  · exact List.suffix_refl _

theorem afterLine_suffix (units : List Nat) :
    afterLine units <:+ units :=
  (afterEnd_suffix _).trans (List.dropWhile_suffix _)

/- A line has at most one line feed at its end. -/
theorem count_afterLine (units : List Nat) :
    units.count 0x0A ≤ (afterLine units).count 0x0A + 1 := by
  have hFront :
      (units.takeWhile (!endsLine ·)).count 0x0A = 0 := by
    refine List.count_eq_zero_of_not_mem fun hMem => ?_
    cases List.mem_takeWhile_imp hMem
  have hEnd :
      ∀ rest : List Nat,
        rest.count 0x0A ≤ (afterEnd rest).count 0x0A + 1 := by
    intro rest
    unfold afterEnd
    split
    · simp
    · rw [List.count_cons]
      split
      · exact Nat.le_refl _
      · omega
    · exact Nat.zero_le _
  calc
    units.count 0x0A =
        (units.takeWhile (!endsLine ·) ++
          units.dropWhile (!endsLine ·)).count 0x0A := by
      rw [List.takeWhile_append_dropWhile]
    _ = (units.dropWhile (!endsLine ·)).count 0x0A := by
      rw [List.count_append, hFront, Nat.zero_add]
    _ ≤ (afterLine units).count 0x0A + 1 := hEnd _

/- The first position is the front of a document. -/
theorem offset_start (units : List Nat) :
    offset 0 0 units = 0 := by
  simp [offset]

/- No place is past the end of a document. -/
theorem offset_le_length (units : List Nat) :
    offset line character units ≤ units.length := by
  induction line generalizing units with
  | zero =>
      exact Nat.le_trans (Nat.min_le_right _ _)
        (List.takeWhile_prefix _).length_le
  | succ line ih =>
      have hShorter := (afterLine_suffix units).length_le
      have hRest := ih (afterLine units)
      rw [offset]
      omega

/- A line with a line feed after it ends before the document does. -/
theorem offset_lt_length (hLine : line < units.count 0x0A) :
    offset line character units < units.length := by
  induction line generalizing units with
  | zero =>
      have hMem : 0x0A ∈ units := List.count_pos_iff.mp hLine
      have hLonger :
          (units.takeWhile (!endsLine ·)).length <
            units.length := by
        refine Nat.lt_of_le_of_ne
          (List.takeWhile_prefix _).length_le fun hSame => ?_
        have hWhole :=
          (List.takeWhile_prefix (!endsLine ·)).eq_of_length hSame
        rw [← hWhole] at hMem
        cases List.mem_takeWhile_imp hMem
      exact Nat.lt_of_le_of_lt (Nat.min_le_right _ _) hLonger
  | succ line ih =>
      have hCount := count_afterLine units
      have hShorter := (afterLine_suffix units).length_le
      have hRest :
          offset line character (afterLine units) <
            (afterLine units).length :=
        ih (by omega)
      rw [offset]
      omega

end Offsets

------------------------------------------------------------
-- Lines Of Editors
------------------------------------------------------------

/- A text that no line ends in. -/
def IsLine (line : Text) : Prop :=
  ∀ c ∈ line, c ≠ '\n' ∧ c ≠ '\r'

/-
  A text divided as editors divide it. A line feed, a carriage
  return or both come after every line but the last.
-/
inductive Divided : Text → Prop where
  | last
      {line : Text}
      (hLine : IsLine line) :
      Divided line
  | feed
      {line rest : Text}
      (hLine : IsLine line)
      (hMore : Divided rest) :
      Divided (line ++ .char '\n' :: rest)
  | both
      {line rest : Text}
      (hLine : IsLine line)
      (hMore : Divided rest) :
      Divided (line ++ .char '\r' :: .char '\n' :: rest)
  | bare
      {line rest : Text}
      (hLine : IsLine line)
      (hOther : rest.head? ≠ some (.char '\n'))
      (hMore : Divided rest) :
      Divided (line ++ .char '\r' :: rest)

/- Every text can be divided into lines. -/
theorem divided (text : Text) : Divided text := by
  let inLine := fun c : CodePoint => c != '\n' && c != '\r'
  have hSplit : text.takeWhile inLine ++ text.dropWhile inLine = text :=
    List.takeWhile_append_dropWhile
  have hLine : IsLine (text.takeWhile inLine) := by
    intro c hMem
    have hInside := List.mem_takeWhile_imp hMem
    simpa [inLine] using hInside
  have hStop := List.head?_dropWhile_not inLine text
  have hShorter := List.length_dropWhile_le inLine text
  generalize text.takeWhile inLine = line at hSplit hLine
  generalize text.dropWhile inLine = rest at hSplit hStop hShorter
  rw [← hSplit]
  match rest, hStop, hShorter with
  | [], _, _ =>
      rw [List.append_nil]
      exact .last hLine
  | c :: rest, hStop, hShorter =>
      have hEnd : c = '\n' ∨ c = '\r' := by
        simpa [inLine, or_iff_not_imp_left] using hStop
      rcases hEnd with rfl | rfl
      · exact .feed hLine (divided rest)
      · match rest, hShorter with
        | [], _ => exact .bare hLine nofun (divided [])
        | d :: rest, hShorter =>
            by_cases hFeed : d = '\n'
            · cases hFeed
              exact .both hLine (divided rest)
            · refine .bare hLine ?_ (divided (d :: rest))
              simpa using hFeed
termination_by text.length
decreasing_by
  all_goals
    simp only [List.length_cons, List.length_nil] at *
    omega

------------------------------------------------------------
-- The End Of A Document
------------------------------------------------------------

section Lines

variable {line rest : Text}

theorem IsLine.not_endsLine
    (hLine : IsLine line) :
    ∀ unit ∈ line.units, (!endsLine unit) = true := by
  intro unit hMem
  rcases List.mem_flatMap.mp hMem with ⟨c, hIn, hUnit⟩
  rcases hLine c hIn with ⟨hFeed, hReturn⟩
  rw [endsLine_of_mem_units hFeed hReturn hUnit]
  rfl

theorem IsLine.not_mem_feed (hLine : IsLine line) :
    .char '\n' ∉ line :=
  fun hMem => (hLine _ hMem).1 rfl

theorem IsLine.not_mem_return (hLine : IsLine line) :
    .char '\r' ∉ line :=
  fun hMem => (hLine _ hMem).2 rfl

theorem IsLine.count_append
    (hLine : IsLine line)
    (rest : Text) :
    (line ++ rest).count (.char '\n') = rest.count (.char '\n') := by
  rw [List.count_append,
    List.count_eq_zero_of_not_mem hLine.not_mem_feed, Nat.zero_add]

/- A place in the first line is not past its end. -/
theorem offset_zero
    {units : List Nat}
    (hLine : IsLine line)
    (hEnd : ∀ unit ∈ units.head?, endsLine unit = true)
    (character : Nat) :
    offset 0 character (line.units ++ units) =
      min character line.units.length := by
  have hStop : units.takeWhile (!endsLine ·) = [] := by
    cases units with
    | nil => rfl
    | cons unit units => simp [hEnd unit rfl]
  rw [offset, List.takeWhile_append_of_pos hLine.not_endsLine,
    hStop, List.append_nil]

/- A place after the first line is one in the rest. -/
theorem offset_succ
    {stop units : List Nat}
    (hLine : IsLine line)
    (hEnd : ∀ unit ∈ stop.head?, endsLine unit = true)
    (hStop : stop ≠ [])
    (hAfter : afterEnd (stop ++ units) = units)
    (number character : Nat) :
    offset (number + 1) character (line.units ++ (stop ++ units)) =
      line.units.length + stop.length +
        offset number character units := by
  have hRest : afterLine (line.units ++ (stop ++ units)) = units := by
    cases stop with
    | nil => exact absurd rfl hStop
    | cons unit stop =>
        rw [afterLine,
          List.dropWhile_append_of_pos hLine.not_endsLine,
          List.cons_append, List.dropWhile_cons_of_neg]
        · exact hAfter
        · simp [hEnd unit rfl]
  rw [offset, hRest, List.length_append, List.length_append]
  omega

theorem lastLine_append_feed (line rest : Text) :
    Text.lastLine (line ++ .char '\n' :: rest) = rest.lastLine := by
  unfold Text.lastLine List.rtakeWhile
  rw [List.reverse_append, List.reverse_cons, List.append_assoc,
    List.singleton_append, List.takeWhile_append]
  split
  · rename_i hWhole
    rw [List.takeWhile_cons_of_neg (by simp), List.append_nil,
      (List.takeWhile_prefix _).eq_of_length hWhole]
  · rfl

theorem lastLine_eq_self
    (hFeed : .char '\n' ∉ line) :
    line.lastLine = line := by
  refine List.rtakeWhile_eq_self_iff.mpr fun c hMem => ?_
  exact decide_eq_true fun hSame => hFeed (hSame ▸ hMem)

/- A carriage return alone is all of the end of a line. -/
theorem afterEnd_return
    (hOther : rest.head? ≠ some (.char '\n')) :
    afterEnd ([0x0D] ++ rest.units) = rest.units := by
  have hFront : rest.units.head? ≠ some 0x0A := by
    cases rest with
    | nil => exact nofun
    | cons c rest =>
        have hUnits : c.units ≠ [] := by
          intro hNone
          have hLength := length_units c
          rw [hNone, List.length_nil] at hLength
          split at hLength
          · cases hLength
          · cases hLength
        rw [units_cons, List.head?_append_of_ne_nil _ hUnits]
        intro hHead
        refine feed_not_mem_units ?_ (List.mem_of_mem_head? hHead)
        exact fun hFeed => hOther (congrArg some hFeed)
  generalize rest.units = units at hFront
  rw [List.singleton_append]
  unfold afterEnd
  split
  · rename_i hText
    cases hText
    exact absurd rfl hFront
  · rename_i hText
    exact (List.cons.inj hText).2.symm
  · rename_i hText
    cases hText

/- Carriage returns are not affected by a text without them. -/
theorem pairsReturns_append
    (hLine : .char '\r' ∉ line) :
    Text.PairsReturns (line ++ rest) ↔ rest.PairsReturns := by
  constructor
  · rintro hPairs before after rfl
    exact hPairs (line ++ before) after (List.append_assoc ..).symm
  · intro hPairs before after hText
    rcases List.append_eq_append_iff.mp hText with
      ⟨more, rfl, hRest⟩ | ⟨more, rfl, hRest⟩
    · exact hPairs more after hRest
    · cases more with
      | nil => exact hPairs [] after hRest.symm
      | cons c more =>
          cases (List.cons.inj hRest).1
          exact absurd List.mem_append_cons_self hLine

theorem pairsReturns_feed (rest : Text) :
    Text.PairsReturns (.char '\n' :: rest) ↔ rest.PairsReturns := by
  have hFeed : .char '\r' ∉ [CodePoint.char '\n'] := by
    decide
  exact pairsReturns_append hFeed

/- A carriage return with its line feed does no harm. -/
theorem pairsReturns_both (rest : Text) :
    Text.PairsReturns (.char '\r' :: .char '\n' :: rest) ↔
      rest.PairsReturns := by
  rw [← pairsReturns_feed rest]
  constructor
  · intro hPairs before after hRest
    exact hPairs (.char '\r' :: before) after (by rw [hRest]; rfl)
  · intro hPairs before after hText
    cases before with
    | nil =>
        rw [← (List.cons.inj hText).2]
        rfl
    | cons c before =>
        exact hPairs before after (List.cons.inj hText).2

/-
  After a carriage return alone editors see one line more than
  line feeds are counted, so the place is before the last one.
-/
theorem offset_lt_of_bare
    (hLine : IsLine line)
    (hOther : rest.head? ≠ some (.char '\n'))
    (character : Nat) :
    offset (rest.count (.char '\n')) character
        (line.units ++ ([0x0D] ++ rest.units)) <
      (line.units ++ ([0x0D] ++ rest.units)).length := by
  cases hCount : rest.count (.char '\n') with
  | zero =>
      rw [offset_zero hLine (by simp [endsLine]),
        List.length_append, List.length_append]
      simp only [List.length_singleton]
      omega
  | succ count =>
      have hFeeds : count < rest.units.count 0x0A := by
        rw [count_units, hCount]
        exact Nat.lt_succ_self count
      rw [offset_succ hLine (by simp [endsLine]) (by simp)
          (afterEnd_return hOther),
        List.length_append, List.length_append, ← Nat.add_assoc]
      exact Nat.add_lt_add_left (offset_lt_length hFeeds) _

end Lines

/-
  The place that is found by counting line feeds and the code
  points after the last one is the end of a document only if
  editors find the same lines and characters in it.
-/
theorem offset_eq_length_iff (source : Text) :
    offset (source.count (.char '\n')) source.lastLine.length
          source.units =
        source.units.length ↔
      source.PairsReturns ∧
        ∀ c ∈ source.lastLine, c.toNat < 0x10000 := by
  induction divided source with
  | @last line hLine =>
      have hOffset :
          offset 0 line.length (line.units ++ []) =
            min line.length line.units.length :=
        offset_zero hLine (by simp) line.length
      have hPairs : line.PairsReturns := by
        rintro before after rfl
        exact absurd rfl (hLine _ List.mem_append_cons_self).2
      have hReached :
          min line.length line.units.length = line.units.length ↔
            line.units.length ≤ line.length := by
        omega
      rw [List.append_nil] at hOffset
      rw [List.count_eq_zero_of_not_mem hLine.not_mem_feed,
        lastLine_eq_self hLine.not_mem_feed, hOffset,
        hReached, units_length_le_iff]
      exact (and_iff_right hPairs).symm
  | @feed line rest hLine hMore ih =>
      have hUnits :
          Text.units (line ++ .char '\n' :: rest) =
            line.units ++ ([0x0A] ++ rest.units) := by
        rw [units_append, units_cons]
        rfl
      have hPairs :
          Text.PairsReturns (line ++ .char '\n' :: rest) ↔
            rest.PairsReturns := by
        rw [pairsReturns_append hLine.not_mem_return,
          pairsReturns_feed]
      rw [hLine.count_append, List.count_cons_self, hUnits,
        lastLine_append_feed, hPairs, ← ih,
        offset_succ hLine (by simp [endsLine]) (by simp) rfl,
        List.length_append, List.length_append, ← Nat.add_assoc,
        Nat.add_left_cancel_iff]
  | @both line rest hLine hMore ih =>
      have hUnits :
          Text.units (line ++ .char '\r' :: .char '\n' :: rest) =
            line.units ++ ([0x0D, 0x0A] ++ rest.units) := by
        rw [units_append, units_cons, units_cons]
        rfl
      have hLast :
          Text.lastLine
              (line ++ .char '\r' :: .char '\n' :: rest) =
            rest.lastLine := by
        have hSame :=
          lastLine_append_feed (line ++ [.char '\r']) rest
        rw [List.append_assoc] at hSame
        exact hSame
      rw [hLine.count_append, List.count_cons_of_ne (by decide),
        List.count_cons_self, hUnits, hLast,
        pairsReturns_append hLine.not_mem_return,
        pairsReturns_both, ← ih,
        offset_succ hLine (by simp [endsLine]) (by simp) rfl,
        List.length_append, List.length_append, ← Nat.add_assoc,
        Nat.add_left_cancel_iff]
  | @bare line rest hLine hOther hMore ih =>
      have hUnits :
          Text.units (line ++ .char '\r' :: rest) =
            line.units ++ ([0x0D] ++ rest.units) := by
        rw [units_append, units_cons]
        rfl
      have hLess :=
        offset_lt_of_bare hLine hOther
          (Text.lastLine (line ++ .char '\r' :: rest)).length
      rw [hLine.count_append, List.count_cons_of_ne (by decide),
        hUnits]
      refine iff_of_false hLess.ne fun hGood => ?_
      exact hOther (hGood.1 line rest rfl)

------------------------------------------------------------
-- Edits
------------------------------------------------------------

/-
  The parts between line feeds are one more than these, and
  end with the last line.
-/
theorem splitOn_feed (source : Text) :
    (source.splitOn '\n').length = source.count (.char '\n') + 1 ∧
      (source.splitOn '\n').getLastD [] = source.lastLine := by
  by_cases hMem : .char '\n' ∈ source
  · rcases List.eq_append_cons_of_mem hMem with
      ⟨line, rest, hSource, hFeed⟩
    have hShorter : rest.length < source.length := by
      rw [hSource, List.length_append, List.length_cons]
      omega
    rcases splitOn_feed rest with ⟨hLength, hLast⟩
    have hParts :
        Text.splitOn '\n' (line ++ .char '\n' :: rest) =
          line :: Text.splitOn '\n' rest := by
      rw [Text.splitOn_eq, Text.splitOn_eq]
      exact List.splitOn_append_cons_self_of_not_mem hFeed rest
    rw [hSource, hParts, List.length_cons, hLength,
      List.count_append,
      List.count_eq_zero_of_not_mem hFeed, List.count_cons_self,
      Nat.zero_add, lastLine_append_feed, ← hLast]
    refine ⟨rfl, ?_⟩
    cases hRest : Text.splitOn '\n' rest with
    | nil =>
        rw [hRest] at hLength
        cases hLength
    | cons part parts => rfl
  · have hParts : source.splitOn '\n' = [source] := by
      rw [Text.splitOn_eq]
      exact List.splitOn_eq_singleton hMem
    rw [hParts, List.count_eq_zero_of_not_mem hMem,
      lastLine_eq_self hMem]
    exact ⟨rfl, rfl⟩
termination_by source.length

/- The range of a document ends after its line feeds and its last line. -/
theorem wholeRange_eq (source : Text) :
    wholeRange source =
      ⟨⟨0, 0⟩,
        ⟨source.count (.char '\n'), source.lastLine.length⟩⟩ := by
  rcases splitOn_feed source with ⟨hLength, hLast⟩
  simp only [wholeRange, hLength, hLast, Nat.add_sub_cancel]

/-
  The edit that formats a document puts the formatted text in
  front of a remnant of the document. Nothing remains exactly
  if every carriage return has a line feed after it and the
  last line has no code point of two code units.
-/
theorem formatEdit?_apply
    [Room]
    {session : Session}
    {uri : Text}
    {document : Document}
    {script : Node Span}
    {formatted : Text}
    (hScript : session.script? uri = some (document, script))
    (hFormatted :
      document.settings.format script = .ok formatted)
    (hOther : formatted ≠ document.source) :
    ∃ edit remnant,
      session.formatEdit? uri = .ok (some edit) ∧
        edit.apply document.source.units =
            formatted.units ++ remnant ∧
          remnant <:+ document.source.units ∧
            (remnant = [] ↔
              document.source.PairsReturns ∧
                ∀ c ∈ document.source.lastLine,
                  c.toNat < 0x10000) := by
  have hEdit :
      session.formatEdit? uri =
        .ok (some ⟨wholeRange document.source, formatted⟩) := by
    rw [Session.formatEdit?, hScript]
    simp only [Document.edit?, hFormatted, bind, Except.bind]
    exact if_neg hOther
  let units := document.source.units
  let stop :=
    offset (document.source.count (.char '\n'))
      document.source.lastLine.length units
  have hStop : stop ≤ units.length := offset_le_length units
  refine
    ⟨_, units.drop stop, hEdit, ?_, List.drop_suffix stop units, ?_⟩
  · rw [Edit.apply, wholeRange_eq, offset_start, List.take_zero,
      List.nil_append]
  · rw [← offset_eq_length_iff, List.drop_eq_nil_iff]
    exact ⟨fun hPast => Nat.le_antisymm hStop hPast,
      fun hEnd => hEnd.ge⟩

/- One code point of two code units leaves the quote after it behind. -/
theorem formatEdit?_apply_pair :
    ∃ (session : Session) (document : Document) (script : Node Span)
        (formatted : Text),
      session.script? "a" = some (document, script) ∧
        document.source = "x = '😀'" ∧
        document.settings.format script = .ok formatted ∧
        formatted ≠ document.source ∧
        ∃ edit remnant,
          session.formatEdit? "a" = .ok (some edit) ∧
            edit.apply document.source.units =
                formatted.units ++ remnant ∧
              remnant ≠ [] := by
  let session :=
    (Session.empty.update "a" "x = '😀'" Settings.default).1
  have hFacts :
      (session.script? "a").map (fun (document, script) =>
          (document.source,
            (document.settings.format script).toOption)) =
        some
          (Text.ofString "x = '😀'",
            some (Text.ofString "x = \"😀\";\n")) := by
    decide +kernel
  cases hScript : session.script? "a" with
  | none =>
      rw [hScript] at hFacts
      cases hFacts
  | some found =>
      rcases found with ⟨document, script⟩
      rw [hScript] at hFacts
      rcases Prod.mk.inj (Option.some.inj hFacts) with
        ⟨hSource, hFormat⟩
      cases hFormatted : document.settings.format script with
      | error error =>
          rw [hFormatted] at hFormat
          cases hFormat
      | ok formatted =>
          rw [hFormatted] at hFormat
          have hOther : formatted ≠ document.source := by
            rw [hSource, Option.some.inj hFormat]
            decide
          rcases formatEdit?_apply hScript hFormatted hOther with
            ⟨edit, remnant, hEdit, hApply, _, hNone⟩
          refine
            ⟨session, document, script, formatted, hScript, hSource,
              hFormatted, hOther, edit, remnant, hEdit, hApply, ?_⟩
          rw [Ne, hNone, hSource]
          exact fun hGood => absurd hGood.2 (by decide)

end Editor

end ExperimentScript
