import Manus.Lib.JsonText
import Mathlib.Data.List.Infix

/-! # Places in nested objects

A list of keys leads to a value inside nested objects, and the value can be replaced
there. Places none of which lies inside another are independent of each other.
-/

namespace Manus.JsonValue

variable {ν α : Type}

/-- Change the value of a key. -/
def changeEntry (key : String) (change : α → α) : List (String × α) → List (String × α)
  | [] => []
  | (key', value) :: rest =>
    if key' = key then (key', change value) :: rest
    else (key', value) :: changeEntry key change rest

theorem keys_changeEntry (key : String) (change : α → α) (fields : List (String × α)) :
    (changeEntry key change fields).map Prod.fst = fields.map Prod.fst := by
  induction fields with
  | nil => rfl
  | cons field fields ih =>
    rw [changeEntry]
    split
    · rfl
    · rw [List.map_cons, List.map_cons, ih]

theorem lookup_changeEntry (key key' : String) (change : α → α) (fields : List (String × α)) :
    (changeEntry key change fields).lookup key' =
      if key' = key then (fields.lookup key').map change else fields.lookup key' := by
  induction fields with
  | nil => simp [changeEntry]
  | cons field fields ih =>
    obtain ⟨key₀, value₀⟩ := field
    by_cases hkey : key' = key
    · subst hkey
      rw [if_pos rfl] at ih ⊢
      rw [changeEntry]
      split
      · rename_i h
        simp [h]
      · rename_i h
        have hne : (key' == key₀) = false := by simpa using Ne.symm h
        rw [List.lookup_cons, List.lookup_cons, hne, ih]
    · rw [if_neg hkey] at ih ⊢
      rw [changeEntry]
      split
      · rename_i h
        subst h
        have hne : (key' == key₀) = false := by simpa using hkey
        rw [List.lookup_cons, List.lookup_cons, hne]
      · rw [List.lookup_cons, List.lookup_cons, ih]

/-- The value that a path of keys leads to. -/
def at? : List String → JsonValue ν → Option (JsonValue ν)
  | [], value => some value
  | key :: path, .obj fields => (fields.lookup key).bind (at? path)
  | _ :: _, _ => none

/-- Another value at a path of keys. -/
def putAt (new : JsonValue ν) : List String → JsonValue ν → JsonValue ν
  | [], _ => new
  | key :: path, .obj fields => .obj (changeEntry key (putAt new path) fields)
  | _ :: _, value => value

@[simp] theorem at?_nil (value : JsonValue ν) : at? [] value = some value := rfl

@[simp] theorem at?_obj (key : String) (path : List String) (fields : List (String × JsonValue ν)) :
    at? (key :: path) (.obj fields) = (fields.lookup key).bind (at? path) := rfl

theorem at?_cons_eq_some {key : String} {path : List String} {value found : JsonValue ν} :
    at? (key :: path) value = some found ↔
      ∃ fields inner, value = .obj fields ∧ fields.lookup key = some inner ∧
        at? path inner = some found := by
  cases value with
  | obj fields =>
    rw [at?_obj, Option.bind_eq_some_iff]
    constructor
    · rintro ⟨inner, hlookup, h⟩
      exact ⟨fields, inner, rfl, hlookup, h⟩
    · rintro ⟨fields', inner, hobj, hlookup, h⟩
      obtain rfl := JsonValue.obj.inj hobj
      exact ⟨inner, hlookup, h⟩
  | _ => simp [at?]

theorem at?_append (front back : List String) (value : JsonValue ν) :
    at? (front ++ back) value = (at? front value).bind (at? back) := by
  induction front generalizing value with
  | nil => rfl
  | cons key front ih =>
    cases value with
    | obj fields =>
      rw [List.cons_append, at?_obj, at?_obj, Option.bind_assoc]
      exact congrArg _ (funext ih)
    | _ => rfl

theorem at?_putAt_self {new value old : JsonValue ν} {path : List String}
    (h : at? path value = some old) : at? path (putAt new path value) = some new := by
  induction path generalizing value with
  | nil => rfl
  | cons key path ih =>
    obtain ⟨fields, inner, rfl, hlookup, h⟩ := at?_cons_eq_some.mp h
    rw [putAt, at?_obj, lookup_changeEntry, if_pos rfl, hlookup]
    exact ih h

/-- Neither of two places lies inside the other. -/
def Apart (path path' : List String) : Prop := ¬ path <+: path' ∧ ¬ path' <+: path

theorem at?_putAt_apart {new value : JsonValue ν} {path path' : List String}
    (h : Apart path path') : at? path' (putAt new path value) = at? path' value := by
  induction path generalizing value path' with
  | nil => exact absurd List.nil_prefix h.1
  | cons key path ih =>
    cases path' with
    | nil => exact absurd List.nil_prefix h.2
    | cons key' path' =>
      cases value with
      | obj fields =>
        rw [putAt, at?_obj, at?_obj, lookup_changeEntry]
        split
        · rename_i hkey
          subst hkey
          have hinner : Apart path path' :=
            ⟨fun hp => h.1 (List.cons_prefix_cons.mpr ⟨rfl, hp⟩),
              fun hp => h.2 (List.cons_prefix_cons.mpr ⟨rfl, hp⟩)⟩
          cases fields.lookup key' with
          | none => rfl
          | some inner => exact ih hinner
        · rfl
      | _ => rfl

theorem changeEntry_self {change : α → α} {key : String} {fields : List (String × α)}
    (h : ∀ value, fields.lookup key = some value → change value = value) :
    changeEntry key change fields = fields := by
  induction fields with
  | nil => rfl
  | cons field fields ih =>
    obtain ⟨key₀, value₀⟩ := field
    rw [changeEntry]
    split
    · rename_i hkey
      rw [h value₀ (by simp [hkey])]
    · rename_i hkey
      have hne : (key == key₀) = false := by simpa using Ne.symm hkey
      rw [ih]
      intro value hvalue
      apply h
      rw [List.lookup_cons, hne]
      exact hvalue

theorem putAt_self {value old : JsonValue ν} {path : List String}
    (h : at? path value = some old) : putAt old path value = value := by
  induction path generalizing value with
  | nil => exact (Option.some.inj h).symm
  | cons key path ih =>
    obtain ⟨fields, inner, rfl, hlookup, h⟩ := at?_cons_eq_some.mp h
    rw [putAt, changeEntry_self]
    intro value hvalue
    rw [hlookup] at hvalue
    obtain rfl := Option.some.inj hvalue
    exact ih h

/-- No object has a key twice. -/
def DistinctKeys (value : JsonValue ν) : Prop :=
  ∀ path fields, at? path value = some (.obj fields) → (fields.map Prod.fst).Nodup

theorem DistinctKeys.obj {fields : List (String × JsonValue ν)}
    (hkeys : (fields.map Prod.fst).Nodup) (h : ∀ field ∈ fields, DistinctKeys field.2) :
    DistinctKeys (.obj fields) := by
  intro path inner hinner
  cases path with
  | nil =>
    obtain rfl := JsonValue.obj.inj (Option.some.inj hinner)
    exact hkeys
  | cons key path =>
    obtain ⟨value, hlookup, hvalue⟩ := Option.bind_eq_some_iff.mp hinner
    obtain ⟨before, after, hsplit, -⟩ := List.lookup_eq_some_iff.mp hlookup
    exact h (key, value) (by simp [hsplit]) path inner hvalue

theorem distinctKeys_num (n : ν) : DistinctKeys (.num n) := by
  intro path fields h
  cases path <;> cases h

theorem DistinctKeys.at? {value inner : JsonValue ν} {path : List String} (h : DistinctKeys value)
    (hinner : at? path value = some inner) : DistinctKeys inner := by
  intro path' fields hfields
  apply h (path ++ path')
  rw [at?_append, hinner]
  exact hfields

end Manus.JsonValue
