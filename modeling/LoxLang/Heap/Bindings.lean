/-
Module: LoxLang.Heap.Bindings
Purpose: Names bound to values, in the order in which the names were first bound.  The variables
  of one frame and the fields of one object are kept this way.
Main exports: Bindings, Bindings.get?, Bindings.set, Bindings.names
-/

namespace LoxLang

/-- Names with their values; no name occurs twice in what `set` builds. -/
structure Bindings (α : Type) where
  entries : List (String × α)
deriving Repr, Inhabited

namespace Bindings

variable {α : Type}

/-- No names at all. -/
def empty : Bindings α :=
  { entries := [] }

/-- The value of a name among entries. -/
def find? (name : String) : List (String × α) → Option α
  | [] => none
  | (key, value) :: rest => if key = name then some value else find? name rest

/-- The entries with one value replaced, or with a new entry at the end. -/
def put (name : String) (value : α) : List (String × α) → List (String × α)
  | [] => [(name, value)]
  | (key, old) :: rest =>
      if key = name then (key, value) :: rest else (key, old) :: put name value rest

/-- The value bound to a name. -/
def get? (bindings : Bindings α) (name : String) : Option α :=
  find? name bindings.entries

/-- Whether a name is bound. -/
def contains (bindings : Bindings α) (name : String) : Bool :=
  (bindings.get? name).isSome

/-- Binds a name.  A name that is already bound keeps its place. -/
def set (bindings : Bindings α) (name : String) (value : α) : Bindings α :=
  { entries := put name value bindings.entries }

/-- The bound names, in the order in which they were first bound. -/
def names (bindings : Bindings α) : List String :=
  bindings.entries.map (·.1)

theorem find?_put (name other : String) (value : α) (entries : List (String × α)) :
    find? other (put name value entries) =
      if name = other then some value else find? other entries := by
  induction entries with
  | nil => simp [put, find?]
  | cons entry rest ih =>
      obtain ⟨key, old⟩ := entry
      by_cases same : key = name
      · subst same
        by_cases found : key = other <;> simp [put, find?, found]
      · by_cases found : key = other
        · subst found
          simp [put, find?, same, Ne.symm same]
        · simp [put, find?, same, found, ih]

/-- Binding a name changes what that name means and nothing else. -/
@[simp] theorem get?_set (bindings : Bindings α) (name other : String) (value : α) :
    (bindings.set name value).get? other =
      if name = other then some value else bindings.get? other :=
  find?_put name other value bindings.entries

theorem mem_names (bindings : Bindings α) (name : String) :
    name ∈ bindings.names ↔ (bindings.get? name).isSome := by
  rcases bindings with ⟨entries⟩
  simp only [names, get?]
  induction entries with
  | nil => simp [find?]
  | cons entry rest ih =>
      rcases entry with ⟨key, value⟩
      by_cases same : key = name
      · simp [find?, same]
      · simp [find?, same, ih, Ne.symm same]

/-- A name that is bound keeps its place, and a new one comes last. -/
theorem names_set (bindings : Bindings α) (name : String) (value : α) :
    (bindings.set name value).names =
      if name ∈ bindings.names then bindings.names else bindings.names ++ [name] := by
  have names_put : ∀ entries : List (String × α), (put name value entries).map (·.1) =
      if name ∈ entries.map (·.1) then entries.map (·.1) else entries.map (·.1) ++ [name] := by
    intro entries
    induction entries with
    | nil => rfl
    | cons entry rest ih =>
        obtain ⟨key, old⟩ := entry
        by_cases same : key = name
        · simp [put, same]
        · simp only [put, same, ↓reduceIte, List.map_cons, ih, List.mem_cons, Ne.symm same,
            false_or]
          split <;> rfl
  exact names_put bindings.entries

end Bindings

end LoxLang
