import Manus.Context.Guards
import Manus.Context.Merge
import Manus.Lib.Mask

/-! # Redaction of secrets

Before a step result is stored, sealed envelopes and values under secret names
are replaced by a placeholder, and then every secret the run has seen is masked
in the texts that are left. The names of fields are never touched.
-/

namespace Manus

def sealedMarker : String := "__am_sealed__"

def redactedPlaceholder : String := "***REDACTED***"

/-- Paths in a device's attribute bags that hold secrets. -/
def secretBagPaths : List (List String) :=
  [["tacacs", "shared_secret"], ["ise", "tacacsSettings", "sharedSecret"],
    ["pyats_testbed", "password"]]

/-- Free-form documents of a device, in which every scalar is redacted. -/
def secretBagSubtrees : List (List String) :=
  [["nautobot", "config_context"], ["nautobot", "local_config_context_data"]]

def secretKeyNames : List String :=
  ["password", "secret", "token", "community", "shared_secret", "sharedsecret", "passphrase",
    "api_key", "apikey", "enable_secret", "snmp_community", "secret_key", "private_key",
    "auth_key", "shared_key", "tacacs_key", "db_pw"]

def secretKeyEndings : List String :=
  ["_password", "_secret", "_token", "_passphrase", "_key", "_pw", "_pass", "_passwd", "_psk",
    "_community"]

/-- `c.lower()`, as far as it gives ASCII letters: besides the capitals, the Kelvin sign and the
dotted capital I. -/
def lowerChar (c : Char) : List Char :=
  if c.toNat = 0x212a then ['k']
  else if c.toNat = 0x130 then ['i', Char.ofNat 0x307]
  else [c.toLower]

def keyIsSecretName (key : String) : Bool :=
  let lowered := String.ofList
    ((key.toList.map fun c => if c = '-' then '_' else c).flatMap lowerChar)
  secretKeyNames.contains lowered || secretKeyEndings.any (endsWith lowered)

/-- Whether the value is an envelope of `seal_secret`. -/
def isSealedSecret (value : Json) : Bool :=
  value.get? sealedMarker == some (.bool true) && (value.get? "ct").isSome

/-- Whether a leaf holds a secret, sealed or in clear text. -/
def secretIsPresent : Json → Bool
  | .str text => text.toList.any fun c => !isPySpace c
  | value => isSealedSecret value

mutual

def redactLeaves : Json → Json
  | .null => .null
  | .obj fields => .obj (redactLeavesFields fields)
  | .arr items => .arr (redactLeavesList items)
  | _ => .str redactedPlaceholder

def redactLeavesList : List Json → List Json
  | [] => []
  | v :: vs => redactLeaves v :: redactLeavesList vs

def redactLeavesFields : List (String × Json) → List (String × Json)
  | [] => []
  | (k, v) :: fields => (k, redactLeaves v) :: redactLeavesFields fields

end

/-- Replace the value at a path of nested objects; nothing happens where there is none. -/
def modifyPath (f : Json → Json) : List String → Json → Json
  | [], v => f v
  | part :: path, .obj fields =>
    .obj (fields.map fun p => if p.1 = part then (p.1, modifyPath f path p.2) else p)
  | _ :: _, v => v

def redactBagSubtrees (bags : Json) : Json :=
  secretBagSubtrees.foldl (fun bags path => modifyPath redactLeaves path bags) bags

def redactBagPaths (bags : Json) : Json :=
  secretBagPaths.foldl (fun bags path => modifyPath
    (fun leaf => if secretIsPresent leaf then .str redactedPlaceholder else leaf) path bags)
    (redactBagSubtrees bags)

/-- The fields of an object, once its attribute bags are redacted. -/
def redactBagsOf (fields : List (String × Json)) : List (String × Json) :=
  fields.map fun p => match p with
    | ("attribute_bags", .obj bags) => ("attribute_bags", redactBagPaths (.obj bags))
    | p => p

/-- One field, given how nested values are redacted. -/
def redactField (redact : Json → Json) (p : String × Json) : String × Json :=
  if isSealedSecret p.2 then (p.1, .str redactedPlaceholder)
  else match p.2 with
    | .str text => (p.1, .str (if keyIsSecretName p.1 then redactedPlaceholder else text))
    | value => (p.1, redact value)

/-- `_redact_inplace`, down to a given depth. -/
def redactInplaceTo : ℕ → Json → Json
  | depth + 1, .obj fields =>
    .obj ((redactBagsOf fields).map (redactField (redactInplaceTo depth)))
  | depth + 1, .arr items => .arr (items.map (redactInplaceTo depth))
  | _, value => value

mutual

def Json.depth : Json → ℕ
  | .arr items => Json.depthList items + 1
  | .obj fields => Json.depthFields fields + 1
  | _ => 0

def Json.depthList : List Json → ℕ
  | [] => 0
  | v :: vs => max (Json.depth v) (Json.depthList vs)

def Json.depthFields : List (String × Json) → ℕ
  | [] => 0
  | (_, v) :: fields => max (Json.depth v) (Json.depthFields fields)

end

def redactInplace (node : Json) : Json := redactInplaceTo node.depth node

section Scrub

/-- Stretches are sorted by where they begin, then by where they end. -/
def spanLe (a b : ℕ × ℕ) : Prop := a.1 < b.1 ∨ a.1 = b.1 ∧ a.2 ≤ b.2

instance : DecidableRel spanLe := fun _ _ => inferInstanceAs (Decidable (_ ∨ _))

def scrubString (text : String) (secrets : List String) : String :=
  let spans := secrets.flatMap fun secret => (occurrences secret.toList text.toList).map
    fun start => (start, start + secret.length)
  match spans.insertionSort spanLe with
  | [] => text
  | first :: spans => String.ofList
      (maskSpans redactedPlaceholder.toList text.toList 0 (joinSpans first spans))

mutual

def scrubKnownValues (secrets : List String) : Json → Json
  | .str text => .str (scrubString text secrets)
  | .obj fields => .obj (scrubKnownFields secrets fields)
  | .arr items => .arr (scrubKnownList secrets items)
  | value => value

def scrubKnownList (secrets : List String) : List Json → List Json
  | [] => []
  | v :: vs => scrubKnownValues secrets v :: scrubKnownList secrets vs

def scrubKnownFields (secrets : List String) : List (String × Json) → List (String × Json)
  | [] => []
  | (k, v) :: fields => (k, scrubKnownValues secrets v) :: scrubKnownFields secrets fields

end

end Scrub

/-- What is stored of the data, given the secrets the run has registered. -/
def redactSecretsInData (known : List String) (data : Json) : Json :=
  let cloned := redactInplace data
  if known.isEmpty then cloned
  else scrubKnownValues (known.insertionSort fun a b => b.length ≤ a.length) cloned

mutual

def containsSealedSecret : Json → Bool
  | .obj fields => isSealedSecret (.obj fields) || containsSealedFields fields
  | .arr items => containsSealedList items
  | _ => false

def containsSealedList : List Json → Bool
  | [] => false
  | v :: vs => containsSealedSecret v || containsSealedList vs

def containsSealedFields : List (String × Json) → Bool
  | [] => false
  | (_, v) :: fields => containsSealedSecret v || containsSealedFields fields

end

section Parts

/-- The first value occurs in the second, at any depth. -/
inductive Json.Part : Json → Json → Prop
  | self (v : Json) : Json.Part v v
  | item {w v : Json} {items : List Json} (hv : v ∈ items) (h : Json.Part w v) :
      Json.Part w (.arr items)
  | field {w v : Json} {k : String} {fields : List (String × Json)} (hv : (k, v) ∈ fields)
      (h : Json.Part w v) : Json.Part w (.obj fields)

/-- Some object in the value has the key. -/
def Json.HasKey (k : String) (v : Json) : Prop :=
  ∃ fields w, Json.Part (.obj fields) v ∧ (k, w) ∈ fields

theorem hasKey_obj {k : String} {fields : List (String × Json)} :
    Json.HasKey k (.obj fields) ↔ ∃ p ∈ fields, p.1 = k ∨ Json.HasKey k p.2 := by
  constructor
  · rintro ⟨_, w, hpart, hw⟩
    cases hpart with
    | self => exact ⟨(k, w), hw, .inl rfl⟩
    | field hv h => exact ⟨_, hv, .inr ⟨_, w, h, hw⟩⟩
  · rintro ⟨⟨k', v⟩, hmem, rfl | ⟨_, w, hpart, hw⟩⟩
    · exact ⟨fields, v, .self _, hmem⟩
    · exact ⟨_, w, .field hmem hpart, hw⟩

theorem hasKey_arr {k : String} {items : List Json} :
    Json.HasKey k (.arr items) ↔ ∃ v ∈ items, Json.HasKey k v := by
  constructor
  · rintro ⟨_, w, hpart, hw⟩
    cases hpart with
    | item hv h => exact ⟨_, hv, _, w, h, hw⟩
  · rintro ⟨v, hv, _, w, hpart, hw⟩
    exact ⟨_, w, .item hv hpart, hw⟩

theorem not_hasKey_str {k text : String} : ¬ Json.HasKey k (.str text) := by
  rintro ⟨_, _, hpart, -⟩
  cases hpart

end Parts

section Mappings

theorem redactLeavesList_eq (items : List Json) :
    redactLeavesList items = items.map redactLeaves := by
  induction items with
  | nil => rfl
  | cons v vs ih => simp [redactLeavesList, ih]

theorem redactLeavesFields_eq (fields : List (String × Json)) :
    redactLeavesFields fields = fields.map fun p => (p.1, redactLeaves p.2) := by
  induction fields with
  | nil => rfl
  | cons p fields ih => simp [redactLeavesFields, ih]

theorem scrubKnownList_eq (secrets : List String) (items : List Json) :
    scrubKnownList secrets items = items.map (scrubKnownValues secrets) := by
  induction items with
  | nil => rfl
  | cons v vs ih => simp [scrubKnownList, ih]

theorem scrubKnownFields_eq (secrets : List String) (fields : List (String × Json)) :
    scrubKnownFields secrets fields = fields.map fun p => (p.1, scrubKnownValues secrets p.2) := by
  induction fields with
  | nil => rfl
  | cons p fields ih => simp [scrubKnownFields, ih]

theorem depthList_le_iff {items : List Json} {n : ℕ} :
    Json.depthList items ≤ n ↔ ∀ v ∈ items, v.depth ≤ n := by
  induction items with
  | nil => simp [Json.depthList]
  | cons v vs ih => simp [Json.depthList, ih]

theorem depthFields_le_iff {fields : List (String × Json)} {n : ℕ} :
    Json.depthFields fields ≤ n ↔ ∀ p ∈ fields, p.2.depth ≤ n := by
  induction fields with
  | nil => simp [Json.depthFields]
  | cons p fields ih => simp [Json.depthFields, ih]

theorem Json.inductionOn {P : Json → Prop} (v : Json)
    (hobj : ∀ fields, (∀ p ∈ fields, P p.2) → P (.obj fields))
    (harr : ∀ items, (∀ v ∈ items, P v) → P (.arr items))
    (hleaf : ∀ v, v.depth = 0 → P v) : P v := by
  induction hn : v.depth using Nat.strong_induction_on generalizing v with
  | _ n ih =>
    cases v with
    | obj fields =>
      refine hobj fields fun p hp => ih p.2.depth ?_ p.2 rfl
      have := depthFields_le_iff.mp le_rfl p hp
      simp only [Json.depth] at hn
      omega
    | arr items =>
      refine harr items fun v hv => ih v.depth ?_ v rfl
      have := depthList_le_iff.mp le_rfl v hv
      simp only [Json.depth] at hn
      omega
    | _ => exact hleaf _ rfl

end Mappings

section Bags

/-- A change of a value that nests nothing deeper and adds no key. -/
structure Shrinks (f : Json → Json) : Prop where
  depth : ∀ v, (f v).depth ≤ v.depth
  key : ∀ v k, Json.HasKey k (f v) → Json.HasKey k v

theorem Shrinks.comp {f g : Json → Json} (hf : Shrinks f) (hg : Shrinks g) :
    Shrinks fun v => f (g v) :=
  ⟨fun v => le_trans (hf.depth (g v)) (hg.depth v), fun v k h => hg.key v k (hf.key (g v) k h)⟩

theorem shrinks_redactLeaves : Shrinks redactLeaves := by
  constructor
  · intro v
    induction v using Json.inductionOn with
    | hobj fields ih =>
      simp only [redactLeaves, redactLeavesFields_eq, Json.depth, Nat.add_le_add_iff_right,
        depthFields_le_iff, List.forall_mem_map]
      exact fun p hp => le_trans (ih p hp) (depthFields_le_iff.mp le_rfl p hp)
    | harr items ih =>
      simp only [redactLeaves, redactLeavesList_eq, Json.depth, Nat.add_le_add_iff_right,
        depthList_le_iff, List.forall_mem_map]
      exact fun v hv => le_trans (ih v hv) (depthList_le_iff.mp le_rfl v hv)
    | hleaf v hv => cases v <;> simp_all [redactLeaves, Json.depth]
  · intro v k
    induction v using Json.inductionOn with
    | hobj fields ih =>
      simp only [redactLeaves, redactLeavesFields_eq, hasKey_obj, List.mem_map]
      rintro ⟨_, ⟨p, hp, rfl⟩, hk | hk⟩
      · exact ⟨p, hp, .inl hk⟩
      · exact ⟨p, hp, .inr (ih p hp hk)⟩
    | harr items ih =>
      simp only [redactLeaves, redactLeavesList_eq, hasKey_arr, List.mem_map]
      rintro ⟨_, ⟨v, hv, rfl⟩, hk⟩
      exact ⟨v, hv, ih v hv hk⟩
    | hleaf v hv =>
      rintro ⟨_, _, hpart, -⟩
      cases v with
      | obj | arr => simp [Json.depth] at hv
      | _ => cases hpart

theorem Shrinks.modifyPath {f : Json → Json} (hf : Shrinks f) (path : List String) :
    Shrinks (modifyPath f path) := by
  induction path with
  | nil => exact hf
  | cons part path ih =>
    constructor
    · intro v
      cases v with
      | obj fields =>
        simp only [Manus.modifyPath, Json.depth, Nat.add_le_add_iff_right, depthFields_le_iff,
          List.forall_mem_map]
        intro p hp
        have hp' := depthFields_le_iff.mp le_rfl p hp
        split
        · exact le_trans (ih.depth p.2) hp'
        · exact hp'
      | _ => exact le_rfl
    · intro v k
      cases v with
      | obj fields =>
        simp only [Manus.modifyPath, hasKey_obj, List.mem_map]
        rintro ⟨_, ⟨p, hp, rfl⟩, hk⟩
        refine ⟨p, hp, ?_⟩
        split at hk
        · exact hk.imp id (ih.key p.2 k)
        · exact hk
      | _ => exact id

theorem Shrinks.foldl_modifyPath {f : Json → Json} (hf : Shrinks f) (paths : List (List String)) :
    Shrinks fun v => paths.foldl (fun v path => Manus.modifyPath f path v) v := by
  induction paths with
  | nil => exact ⟨fun v => le_rfl, fun v k => id⟩
  | cons path paths ih => exact ih.comp (hf.modifyPath path)

theorem shrinks_redactBagPaths : Shrinks redactBagPaths := by
  have hleaf : Shrinks fun leaf =>
      if secretIsPresent leaf then .str redactedPlaceholder else leaf := by
    constructor
    · intro v
      split
      · exact Nat.zero_le _
      · exact le_rfl
    · intro v k h
      split at h
      · exact (not_hasKey_str h).elim
      · exact h
  exact (hleaf.foldl_modifyPath secretBagPaths).comp
    (shrinks_redactLeaves.foldl_modifyPath secretBagSubtrees)

theorem mem_redactBagsOf {fields : List (String × Json)} {p : String × Json}
    (h : p ∈ redactBagsOf fields) :
    ∃ q ∈ fields, p.1 = q.1 ∧ (p.2 = q.2 ∨ p.2 = redactBagPaths q.2) := by
  obtain ⟨q, hq, rfl⟩ := List.mem_map.mp h
  refine ⟨q, hq, ?_⟩
  split
  · exact ⟨rfl, .inr rfl⟩
  · exact ⟨rfl, .inl rfl⟩

theorem redactBagsOf_shrinks {fields : List (String × Json)} {p : String × Json}
    (h : p ∈ redactBagsOf fields) : ∃ q ∈ fields, p.1 = q.1 ∧ p.2.depth ≤ q.2.depth ∧
      ∀ k, Json.HasKey k p.2 → Json.HasKey k q.2 := by
  obtain ⟨q, hq, hk, hv | hv⟩ := mem_redactBagsOf h
  · exact ⟨q, hq, hk, hv ▸ le_rfl, fun k => hv ▸ id⟩
  · exact ⟨q, hq, hk, hv ▸ shrinks_redactBagPaths.depth q.2,
      fun k => hv ▸ shrinks_redactBagPaths.key q.2 k⟩

end Bags

section Envelopes

theorem lookup_map_snd {g : String × Json → String × Json} (hg : ∀ p, (g p).1 = p.1)
    (fields : List (String × Json)) (k : String) :
    (fields.map g).lookup k = (fields.lookup k).map fun v => (g (k, v)).2 := by
  induction fields with
  | nil => rfl
  | cons p fields ih =>
    obtain ⟨k', v⟩ := p
    have hcons : (g (k', v) :: fields.map g).lookup k =
        if k = k' then some (g (k', v)).2 else (fields.map g).lookup k := by
      rw [← Dict.lookup_pair_cons]
      congr 2
      exact Prod.ext (hg _) rfl
    rw [List.map_cons, hcons, Dict.lookup_pair_cons, ih]
    split
    · rename_i hk
      rw [hk, Option.map_some]
    · rfl

theorem isSealedSecret_of_map {g : String × Json → String × Json} (hg : ∀ p, (g p).1 = p.1)
    (hmark : ∀ v, (g (sealedMarker, v)).2 = .bool true → v = .bool true)
    {fields : List (String × Json)} (h : isSealedSecret (.obj (fields.map g)) = true) :
    isSealedSecret (.obj fields) = true := by
  simp only [isSealedSecret, Json.get?, Bool.and_eq_true, beq_iff_eq, lookup_map_snd hg,
    Option.map_eq_some_iff, Option.isSome_map] at h ⊢
  obtain ⟨⟨v, hv, hb⟩, hct⟩ := h
  exact ⟨hmark v hb ▸ hv, hct⟩

theorem redactField_fst (redact : Json → Json) (p : String × Json) :
    (redactField redact p).1 = p.1 := by
  unfold redactField
  split
  · rfl
  · split <;> rfl

theorem redactInplaceTo_bool {n : ℕ} {v : Json} (h : redactInplaceTo n v = .bool true) :
    v = .bool true := by
  cases n <;> cases v <;> simp_all [redactInplaceTo]

theorem isSealedSecret_redactInplaceTo {n : ℕ} {v : Json}
    (h : isSealedSecret (redactInplaceTo n v) = true) : isSealedSecret v = true := by
  cases n with
  | zero => exact h
  | succ n =>
    cases v with
    | obj fields =>
      refine isSealedSecret_of_map (fun p => ?_) (fun v hv => ?_)
        (isSealedSecret_of_map (redactField_fst _) (fun v hv => ?_) h)
      · split <;> rfl
      · exact hv
      · unfold redactField at hv
        split at hv
        · cases hv
        · split at hv
          · cases hv
          · exact redactInplaceTo_bool hv
    | arr items => simp [isSealedSecret, Json.get?, redactInplaceTo] at h
    | _ => exact h

/-- No object in the value has an envelope as a field. -/
def NoSealedField (v : Json) : Prop :=
  ∀ fields, Json.Part (.obj fields) v → ∀ p ∈ fields, isSealedSecret p.2 = false

theorem noSealedField_obj {fields : List (String × Json)} :
    NoSealedField (.obj fields) ↔ ∀ p ∈ fields, isSealedSecret p.2 = false ∧ NoSealedField p.2 := by
  constructor
  · intro h p hp
    exact ⟨h fields (.self _) p hp, fun fields' hpart => h fields' (.field hp hpart)⟩
  · rintro h _ hpart
    cases hpart with
    | self => exact fun p hp => (h p hp).1
    | field hv hpart => exact (h _ hv).2 _ hpart

theorem noSealedField_arr {items : List Json} :
    NoSealedField (.arr items) ↔ ∀ v ∈ items, NoSealedField v := by
  constructor
  · exact fun h v hv fields hpart => h fields (.item hv hpart)
  · rintro h _ hpart
    cases hpart with
    | item hv hpart => exact h _ hv _ hpart

theorem noSealedField_str (text : String) : NoSealedField (.str text) := by
  intro _ hpart
  cases hpart

/-- Redaction leaves no envelope in an object and adds no key, if it goes deep enough. -/
theorem redactInplaceTo_spec {n : ℕ} {v : Json} (hn : v.depth ≤ n) :
    NoSealedField (redactInplaceTo n v) ∧
      ∀ k, Json.HasKey k (redactInplaceTo n v) → Json.HasKey k v := by
  induction n generalizing v with
  | zero =>
    cases v with
    | obj | arr => simp [Json.depth] at hn
    | _ =>
      refine ⟨?_, fun k => id⟩
      intro _ hpart
      cases hpart
  | succ n ih =>
    cases v with
    | obj fields =>
      simp only [Json.depth, Nat.add_le_add_iff_right, depthFields_le_iff] at hn
      have hfield : ∀ p ∈ redactBagsOf fields,
          isSealedSecret (redactField (redactInplaceTo n) p).2 = false ∧
          NoSealedField (redactField (redactInplaceTo n) p).2 ∧
          ∀ k, Json.HasKey k (redactField (redactInplaceTo n) p).2 → Json.HasKey k p.2 := by
        intro p hp
        obtain ⟨q, hq, -, hdepth, -⟩ := redactBagsOf_shrinks hp
        obtain ⟨hsealed, hkeys⟩ := ih (le_trans hdepth (hn q hq))
        unfold redactField
        split
        · exact ⟨rfl, noSealedField_str _, fun k hk => (not_hasKey_str hk).elim⟩
        · rename_i hopen
          split
          · exact ⟨rfl, noSealedField_str _, fun k hk => (not_hasKey_str hk).elim⟩
          · exact ⟨Bool.eq_false_iff.mpr fun h => hopen (isSealedSecret_redactInplaceTo h),
              hsealed, hkeys⟩
      simp only [redactInplaceTo]
      constructor
      · rw [noSealedField_obj, List.forall_mem_map]
        exact fun p hp => ⟨(hfield p hp).1, (hfield p hp).2.1⟩
      · intro k hk
        obtain ⟨_, hmem, hk⟩ := hasKey_obj.mp hk
        obtain ⟨p, hp, rfl⟩ := List.mem_map.mp hmem
        obtain ⟨q, hq, hname, -, hkeys⟩ := redactBagsOf_shrinks hp
        refine hasKey_obj.mpr ⟨q, hq, hk.imp (fun h => ?_) fun h => ?_⟩
        · rw [← h, redactField_fst, hname]
        · exact hkeys k ((hfield p hp).2.2 k h)
    | arr items =>
      simp only [Json.depth, Nat.add_le_add_iff_right, depthList_le_iff] at hn
      simp only [redactInplaceTo]
      constructor
      · rw [noSealedField_arr, List.forall_mem_map]
        exact fun v hv => (ih (hn v hv)).1
      · intro k hk
        obtain ⟨_, hmem, hk⟩ := hasKey_arr.mp hk
        obtain ⟨v, hv, rfl⟩ := List.mem_map.mp hmem
        exact hasKey_arr.mpr ⟨v, hv, (ih (hn v hv)).2 k hk⟩
    | _ =>
      refine ⟨?_, fun k => id⟩
      intro _ hpart
      cases hpart

end Envelopes

section Texts

instance : IsTrans (ℕ × ℕ) spanLe :=
  ⟨fun a b c hab hbc => by unfold spanLe at *; omega⟩

instance : Std.Total spanLe := ⟨fun a b => by unfold spanLe; omega⟩

theorem ordered_insertionSort (spans : List (ℕ × ℕ)) : Ordered (spans.insertionSort spanLe) := by
  apply (List.pairwise_insertionSort spanLe spans).imp
  intro a b hab
  unfold spanLe at hab
  omega

/-- A secret that does not overlap the placeholder does not occur in a scrubbed text. -/
theorem not_infix_scrubString {text secret : String} {secrets : List String}
    (hmem : secret ∈ secrets) (hne : secret.toList ≠ [])
    (ho : ¬ Overlap secret.toList redactedPlaceholder.toList) :
    ¬ secret.toList <:+: (scrubString text secrets).toList := by
  unfold scrubString
  dsimp only
  generalize hspans : (secrets.flatMap fun secret =>
    (occurrences secret.toList text.toList).map fun start => (start, start + secret.length)) = spans
  have hspan : ∀ start, secret.toList <+: text.toList.drop start →
      (start, start + secret.toList.length) ∈ spans.insertionSort spanLe := by
    intro start hstart
    have hle : start ≤ text.toList.length := by
      by_contra hlt
      rw [List.drop_eq_nil_of_le (by omega), List.prefix_nil] at hstart
      exact hne hstart
    rw [List.mem_insertionSort, ← hspans, List.mem_flatMap]
    refine ⟨secret, hmem, List.mem_map.mpr ⟨start, mem_occurrences.mpr ⟨hle, hstart⟩, ?_⟩⟩
    rw [String.length_toList]
  have hvalid : ∀ a ∈ spans.insertionSort spanLe, a.1 ≤ a.2 := by
    intro a ha
    rw [List.mem_insertionSort, ← hspans, List.mem_flatMap] at ha
    obtain ⟨_, _, ha⟩ := ha
    obtain ⟨start, -, rfl⟩ := List.mem_map.mp ha
    exact Nat.le_add_right _ _
  have hordered := ordered_insertionSort spans
  cases hsorted : spans.insertionSort spanLe with
  | nil =>
    intro hin
    rw [hsorted] at hspan
    have hin : secret.toList <:+: text.toList.drop 0 := hin
    obtain ⟨start, -, hstart, -⟩ := occurs_of_infix_drop hin hne
    cases hspan start hstart
  | cons first rest =>
    rw [hsorted] at hspan hvalid hordered
    obtain ⟨hinside, hapart, hfirst⟩ := joinSpans_spec hordered hvalid
    rw [String.toList_ofList]
    refine not_infix_maskSpans (by decide) hne ho hapart (fun b hb => (hfirst b hb).2)
      (fun b _ => Nat.zero_le _) fun start _ hstart => hinside _ (hspan start hstart)

/-- What occurs in scrubbed data is something that occurred in the data, scrubbed. -/
theorem part_scrubKnownValues {secrets : List String} {v w : Json}
    (h : Json.Part w (scrubKnownValues secrets v)) :
    ∃ u, Json.Part u v ∧ w = scrubKnownValues secrets u := by
  induction v using Json.inductionOn with
  | hobj fields ih =>
    simp only [scrubKnownValues, scrubKnownFields_eq] at h
    cases h with
    | self => exact ⟨.obj fields, .self _, by simp only [scrubKnownValues, scrubKnownFields_eq]⟩
    | field hv h =>
      obtain ⟨p, hp, he⟩ := List.mem_map.mp hv
      cases he
      obtain ⟨u, hu, rfl⟩ := ih p hp h
      exact ⟨u, .field hp hu, rfl⟩
  | harr items ih =>
    simp only [scrubKnownValues, scrubKnownList_eq] at h
    cases h with
    | self => exact ⟨.arr items, .self _, by simp only [scrubKnownValues, scrubKnownList_eq]⟩
    | item hv h =>
      obtain ⟨x, hx, rfl⟩ := List.mem_map.mp hv
      obtain ⟨u, hu, rfl⟩ := ih x hx h
      exact ⟨u, .item hx hu, rfl⟩
  | hleaf v hv =>
    cases v with
    | obj | arr => simp [Json.depth] at hv
    | _ =>
      cases h
      exact ⟨_, .self _, rfl⟩

theorem isSealedSecret_scrubKnownValues {secrets : List String} {v : Json}
    (h : isSealedSecret (scrubKnownValues secrets v) = true) : isSealedSecret v = true := by
  cases v with
  | obj fields =>
    rw [scrubKnownValues, scrubKnownFields_eq] at h
    refine isSealedSecret_of_map (g := fun p => (p.1, scrubKnownValues secrets p.2))
      (fun p => rfl) (fun v hv => ?_) h
    cases v <;> simp_all [scrubKnownValues]
  | _ => simp_all [scrubKnownValues, isSealedSecret, Json.get?]

end Texts

/-- The shortest text that is tracked as a secret. -/
def minTrackedSecretLength : ℕ := 8

/-- Secrets as a run registers them, none of which overlaps the placeholder. -/
def Tracked (secrets : List String) : Prop :=
  ∀ s ∈ secrets, minTrackedSecretLength ≤ s.length ∧
    ¬ Overlap s.toList redactedPlaceholder.toList

/-- No text that is stored contains a registered secret, no field that is stored is an envelope,
and every key that is stored is a key of the data. -/
theorem redactSecretsInData_hides {known : List String} (hknown : Tracked known) (data : Json) :
    (∀ text, Json.Part (.str text) (redactSecretsInData known data) → ∀ secret ∈ known,
      ¬ secret.toList <:+: text.toList) ∧
    ∀ fields, Json.Part (.obj fields) (redactSecretsInData known data) → ∀ p ∈ fields,
      isSealedSecret p.2 = false ∧ Json.HasKey p.1 data := by
  obtain ⟨hsealed, hkeys⟩ := redactInplaceTo_spec (le_refl data.depth)
  unfold redactSecretsInData
  split
  · rename_i hempty
    constructor
    · intro text _ secret hsecret
      rw [List.isEmpty_iff.mp hempty] at hsecret
      cases hsecret
    · exact fun fields hpart p hp => ⟨hsealed fields hpart p hp, hkeys _ ⟨fields, _, hpart, hp⟩⟩
  · constructor
    · intro text hpart secret hsecret
      obtain ⟨u, -, hu⟩ := part_scrubKnownValues hpart
      obtain ⟨hlength, ho⟩ := hknown secret hsecret
      cases u with
      | str t =>
        cases hu
        refine not_infix_scrubString ((List.mem_insertionSort _).mpr hsecret) ?_ ho
        rw [← List.length_pos_iff, String.length_toList]
        exact lt_of_lt_of_le (by decide) hlength
      | _ => cases hu
    · intro fields hpart p hp
      obtain ⟨u, hu, he⟩ := part_scrubKnownValues hpart
      cases u with
      | obj fields' =>
        rw [scrubKnownValues, scrubKnownFields_eq, Json.obj.injEq] at he
        rw [he] at hp
        obtain ⟨q, hq, rfl⟩ := List.mem_map.mp hp
        refine ⟨Bool.eq_false_iff.mpr fun h => ?_, hkeys _ ⟨fields', _, hu, hq⟩⟩
        have := isSealedSecret_scrubKnownValues h
        rw [hsealed fields' hu q hq] at this
        cases this
      | _ => cases he

/-- A result that lists an envelope and has a secret for a key. -/
def keyedData : Json :=
  .obj [("backups", .arr [.obj [(sealedMarker, .bool true), ("v", .int 2), ("ct", .str "gAAAA")]]),
    ("hunter2hunter2", .str "password hunter2hunter2")]

theorem keyedData_tracked : Tracked ["hunter2hunter2"] := by
  intro s hs
  obtain rfl := List.mem_singleton.mp hs
  have hdisjoint : ("hunter2hunter2".toList.all fun c =>
      !redactedPlaceholder.toList.contains c) = true := by decide
  refine ⟨by decide, not_overlap_of_disjoint fun c hc hmask => ?_⟩
  have hnot := List.all_eq_true.mp hdisjoint c hc
  simp [hmask] at hnot

/-- Its texts are scrubbed. -/
theorem keyedData_hidden : Tracked ["hunter2hunter2"] ∧
    (∀ text, Json.Part (.str text) (redactSecretsInData ["hunter2hunter2"] keyedData) →
      ∀ secret ∈ ["hunter2hunter2"], ¬ secret.toList <:+: text.toList) ∧
    ∀ fields, Json.Part (.obj fields) (redactSecretsInData ["hunter2hunter2"] keyedData) →
      ∀ p ∈ fields, isSealedSecret p.2 = false ∧ Json.HasKey p.1 keyedData :=
  ⟨keyedData_tracked, redactSecretsInData_hides keyedData_tracked keyedData⟩

/-- Its keys are not, and the envelope in the list stays. -/
theorem keyedData_shown : Tracked ["hunter2hunter2"] ∧
    Json.HasKey "hunter2hunter2" (redactSecretsInData ["hunter2hunter2"] keyedData) ∧
    containsSealedSecret (redactSecretsInData ["hunter2hunter2"] keyedData) = true := by
  have hstored : redactSecretsInData ["hunter2hunter2"] keyedData =
      .obj [("backups", .arr [.obj [(sealedMarker, .bool true), ("v", .int 2),
        ("ct", .str "gAAAA")]]), ("hunter2hunter2", .str "password ***REDACTED***")] := by
    decide +kernel
  rw [hstored]
  exact ⟨keyedData_tracked, ⟨_, _, .self _, .tail _ (.head _)⟩, by decide +kernel⟩

end Manus
