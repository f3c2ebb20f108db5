import ExperimentScript.Proofs.Script.Shape

/-
  Fields with one more entry: their names stay distinct, what
  holds of all entries goes on to hold, and no other name gets
  another value.

  Main declarations:
    * `ExperimentScript.Fields.areDistinct_set`
    * `ExperimentScript.Fields.forall_mem_set`
    * `ExperimentScript.Fields.get?_set`
    * `ExperimentScript.Fields.get?_filter`
-/

namespace ExperimentScript

namespace Fields

variable {α : Type}

/- A name that is present stays where it is, and a new one comes last. -/
theorem names_set
    (fields : Fields α)
    (name : Text)
    (value : α) :
    (fields.set name value).names =
      if name ∈ fields.names then fields.names
      else fields.names ++ [name] := by
  induction fields with
  | nil => simp [set, names]
  | cons entry rest ih =>
      rcases entry with ⟨key, old⟩
      by_cases hKey : key = name
      · simp [set, names, hKey]
      · have hOther : ¬ name = key := fun h => hKey h.symm
        have hNames :
            (set rest name value).map Prod.fst =
              if name ∈ rest.map Prod.fst then rest.map Prod.fst
              else rest.map Prod.fst ++ [name] := ih
        simp only [set, names, if_neg hKey, List.map_cons,
          hNames, List.mem_cons, hOther, false_or]
        split <;> simp

/- Setting a field keeps the names of the fields distinct. -/
theorem areDistinct_set
    {fields : Fields α}
    (hDistinct : fields.areDistinct = true)
    (name : Text)
    (value : α) :
    (fields.set name value).areDistinct = true := by
  simp only [areDistinct, decide_eq_true_eq, names_set] at *
  split
  · exact hDistinct
  · rename_i hNew
    exact List.nodup_append.mpr
      ⟨hDistinct, by simp, by
        intro other hOld key hKey hEqual
        rw [List.mem_singleton] at hKey
        exact hNew (hKey ▸ hEqual ▸ hOld)⟩

/- What holds of every entry and of a new one holds after it is set. -/
theorem forall_mem_set
    (good : Text → α → Prop)
    {fields : Fields α}
    (hFields : ∀ entry ∈ fields, good entry.1 entry.2)
    {name : Text}
    {value : α}
    (hEntry : good name value) :
    ∀ entry ∈ fields.set name value, good entry.1 entry.2 := by
  induction fields with
  | nil => simpa [set] using hEntry
  | cons entry rest ih =>
      rcases entry with ⟨key, old⟩
      have hRest : ∀ entry ∈ rest, good entry.1 entry.2 :=
        fun entry hMem => hFields entry (by simp [hMem])
      by_cases hKey : key = name
      · subst hKey
        simpa [set] using And.intro hEntry fun name value hMem =>
          hRest (name, value) hMem
      · have hFirst : good key old :=
          hFields (key, old) (by simp)
        simpa [set, hKey] using And.intro hFirst
          fun name value hMem => ih hRest (name, value) hMem

theorem get?_cons
    (key name : Text)
    (value : α)
    (fields : Fields α) :
    get? ((key, value) :: fields) name =
      if name = key then some value else fields.get? name := by
  by_cases hName : name = key
  · simp [get?, hName]
  · simp [get?, List.lookup_cons, beq_eq_false_iff_ne.mpr hName, hName]

/- A field that is set has its new value, and all others have theirs. -/
theorem get?_set
    (fields : Fields α)
    (name other : Text)
    (value : α) :
    (fields.set name value).get? other =
      if other = name then some value else fields.get? other := by
  induction fields with
  | nil => rw [set, get?_cons]
  | cons entry rest ih =>
      rcases entry with ⟨key, old⟩
      rw [set]
      split
      · rename_i hKey
        rw [get?_cons, get?_cons, hKey]
        split
        · rfl
        · rfl
      · rename_i hKey
        rw [get?_cons, get?_cons, ih]
        split
        · rename_i hOther
          rw [if_neg (hOther ▸ hKey)]
        · rfl

/- A field that is left out has no value, and all others have theirs. -/
theorem get?_filter
    (fields : Fields α)
    (name other : Text) :
    get? (fields.filter fun (key, _) => key ≠ name) other =
      if other = name then none else fields.get? other := by
  induction fields with
  | nil => simp [get?]
  | cons entry rest ih =>
      rcases entry with ⟨key, old⟩
      by_cases hKey : key = name
      · rw [List.filter_cons_of_neg (by simp [hKey]), ih, get?_cons,
          hKey]
        split
        · rfl
        · rfl
      · rw [List.filter_cons_of_pos (by simp [hKey]), get?_cons,
          get?_cons, ih]
        split
        · rename_i hOther
          rw [if_neg (hOther ▸ hKey)]
        · rfl

end Fields

------------------------------------------------------------
-- Fields As Lists Of Entries
------------------------------------------------------------

namespace Value

/- The values of fields are bounded when each one is. -/
theorem haveBounded_iff (fields : List (Text × Value)) :
    haveBounded fields = true ↔
      ∀ entry ∈ fields, entry.2.isBounded = true := by
  induction fields with
  | nil => simp [haveBounded]
  | cons entry rest ih => simp [haveBounded, ih]

/- Fields are named when each one is. -/
theorem haveNamed_iff (fields : List (Text × Value)) :
    haveNamed fields = true ↔
      ∀ entry ∈ fields,
        Format.isName entry.1 = true ∧
          entry.2.isNamed = true := by
  induction fields with
  | nil => simp [haveNamed]
  | cons entry rest ih => simp [haveNamed, ih]

end Value

namespace Node

variable {α : Type}

/- Named arguments are shaped when each one is. -/
theorem haveShaped_iff
    (named : Bool)
    (arguments : List (Text × Node α)) :
    haveShaped named arguments = true ↔
      ∀ entry ∈ arguments,
        Format.isName entry.1 = true ∧
          isShaped named entry.2 = true := by
  induction arguments with
  | nil => simp [haveShaped]
  | cons entry rest ih => simp [haveShaped, ih]

end Node

end ExperimentScript
