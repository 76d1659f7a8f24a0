import Manus.Secrets.SecretPaths
import Manus.Lib.Except

/-! # One device, one secret path

Within one call the paths of the devices are well formed and all different. Calls
know nothing of each other, so between two of them this rests on the paths that the
template gives.
-/

namespace Manus.SecretPaths

open StoreArtifact

section Segments

variable {strict : Bool} {device : DeviceContext} {template path : List Char}
  {moments : ℕ → LookupEnv}

theorem safeSegment_safe (rendered : List Char) :
    ∀ c ∈ safeSegment rendered, isSegmentChar c = true := by
  intro c hc
  rw [safeSegment, List.mem_map] at hc
  obtain ⟨d, -, rfl⟩ := hc
  split
  · assumption
  · decide

theorem not_isSegmentChar_slash : isSegmentChar '/' = false := by decide

theorem renderSegment_safe {segment rendered : List Char} {env : LookupEnv}
    (h : renderSegment strict device segment env = .ok rendered) :
    ∀ c ∈ rendered, isSegmentChar c = true := by
  rw [renderSegment] at h
  split at h
  · cases h
    rintro c ⟨⟩
  · obtain ⟨text, -, rfl⟩ := map_eq_ok.mp h
    exact safeSegment_safe text

structure WellFormed (template path : List Char) : Prop where
  length : (path.splitOn '/').length = (template.splitOn '/').length
  chars : ∀ c ∈ path, isPathChar c = true
  segments : ∀ segment ∈ path.splitOn '/', segment ≠ [] ∧ segment ≠ ['.'] ∧ segment ≠ ['.', '.']

theorem validateKvPath_eq_ok (h : validateKvPath path = .ok template) : path = template ∧
    (∀ c ∈ path, isPathChar c = true) ∧
    ∀ segment ∈ path.splitOn '/', segment ≠ [] ∧ segment ≠ ['.'] ∧ segment ≠ ['.', '.'] := by
  rw [validateKvPath, ite_error_eq_ok] at h
  obtain ⟨hgood, hsame⟩ := h
  simp only [not_or, Bool.not_eq_false, Bool.not_eq_true] at hgood
  obtain ⟨-, -, hchars, hsegments⟩ := hgood
  refine ⟨Except.ok.inj hsame, List.all_eq_true.mp hchars, fun segment hsegment => ?_⟩
  have hgood := List.any_eq_false.mp hsegments segment hsegment
  simpa [isBadSegment, and_assoc] using hgood

theorem splitOn_ne_nil (text : List Char) : text.splitOn '/' ≠ [] := by
  simp

theorem renderSecretPath_wellFormed
    (h : renderSecretPath strict device template moments = .ok path) :
    WellFormed template path := by
  rw [renderSecretPath, bind_eq_ok] at h
  obtain ⟨segments, hsegments, hvalid⟩ := h
  obtain ⟨rfl, hchars, hgood⟩ := validateKvPath_eq_ok hvalid
  have hslash : ∀ segment ∈ segments, '/' ∉ segment := by
    intro segment hsegment hmem
    obtain ⟨entry, -, hentry⟩ := (mapM_eq_ok hsegments).1 segment hsegment
    have hsafe := renderSegment_safe hentry '/' hmem
    rw [not_isSegmentChar_slash] at hsafe
    cases hsafe
  have hlength : segments.length = (template.splitOn '/').length := by
    rw [length_of_mapM hsegments, List.length_zipIdx]
  have hne : segments ≠ [] := by
    rw [← List.length_pos_iff, hlength, List.length_pos_iff]
    exact splitOn_ne_nil template
  refine ⟨?_, hchars, hgood⟩
  rw [List.splitOn_intercalate _ hslash hne, hlength]

end Segments

section Duplicates

variable {l : List (String × String)} {id key : String}

def ownerOf (l : List (String × String)) (key : String) : Option String :=
  (l.find? fun item => item.2 = key).map Prod.fst

theorem ownerOf_append (l : List (String × String)) (item : String × String) (key : String) :
    ownerOf (l ++ [item]) key =
      (ownerOf l key).or (if item.2 = key then some item.1 else none) := by
  rw [ownerOf, ownerOf, List.find?_append]
  cases l.find? fun item => item.2 = key with
  | some found => rfl
  | none =>
    by_cases h : item.2 = key
    · simp [h]
    · simp [h]

theorem ownerOf_isSome (h : (id, key) ∈ l) : ∃ owner, ownerOf l key = some owner := by
  have hfound : (l.find? fun item => item.2 = key).isSome = true := by
    rw [List.find?_isSome]
    exact ⟨(id, key), h, by simp⟩
  obtain ⟨found, hfound⟩ := Option.isSome_iff_exists.mp hfound
  exact ⟨found.1, by rw [ownerOf, hfound]; rfl⟩

theorem mem_of_ownerOf (h : ownerOf l key = some id) : (id, key) ∈ l := by
  obtain ⟨⟨id', key'⟩, hfound, rfl⟩ := Option.map_eq_some_iff.mp h
  have hkey : key' = key := by simpa using List.find?_some hfound
  rw [← hkey]
  exact List.mem_of_find?_eq_some hfound

theorem ownerOf_append_of_some {owner : String} {item : String × String}
    (h : ownerOf l key = some owner) : ownerOf (l ++ [item]) key = some owner := by
  rw [ownerOf_append, h, Option.some_or]

theorem ownerOf_append_of_none {item : String × String} (h : ownerOf l key = none) :
    ownerOf (l ++ [item]) key = if item.2 = key then some item.1 else none := by
  rw [ownerOf_append, h, Option.none_or]

theorem noteKey_first {seen : Dict String × Dict String} {item : String × String}
    (h : seen.1.get? item.2 = none) :
    noteKey seen item = (seen.1.insert item.2 item.1, seen.2) := by
  simp only [noteKey, h]

theorem noteKey_later {seen : Dict String × Dict String} {item : String × String} {owner : String}
    (h : seen.1.get? item.2 = some owner) (hne : owner ≠ item.1) :
    noteKey seen item = (seen.1, seen.2.insert item.1 owner) := by
  simp only [noteKey, h, if_pos hne]

/-- The fold knows the first device with each key, and who came later. -/
theorem foldl_noteKey (l : List (String × String)) (hids : (l.map Prod.fst).Nodup) :
    (∀ key, (l.foldl noteKey (∅, ∅)).1.get? key = ownerOf l key) ∧
      ∀ id owner, (findDuplicateKeys l).get? id = some owner ↔
        ∃ key, (id, key) ∈ l ∧ ownerOf l key = some owner ∧ owner ≠ id := by
  induction l using List.reverseRecOn with
  | nil =>
    constructor
    · intro key
      rfl
    · intro id owner
      constructor
      · rintro ⟨⟩
      · rintro ⟨key, hmem, -⟩
        cases hmem
  | append_singleton l item ih =>
    rw [List.map_append, List.nodup_append] at hids
    obtain ⟨hfirst, hlater⟩ := ih hids.1
    have hnew : ∀ key, (item.1, key) ∉ l := fun key hmem =>
      hids.2.2 item.1 (List.mem_map.mpr ⟨_, hmem, rfl⟩) item.1 (by simp) rfl
    have hold : ∀ id owner, (∃ key, (id, key) ∈ l ∧ ownerOf (l ++ [item]) key = some owner ∧
        owner ≠ id) ↔ ∃ key, (id, key) ∈ l ∧ ownerOf l key = some owner ∧ owner ≠ id := by
      intro id owner
      refine exists_congr fun key => and_congr_right fun hmem => ?_
      obtain ⟨first, hfirst⟩ := ownerOf_isSome hmem
      rw [ownerOf_append_of_some hfirst, hfirst]
    have hsplit : ∀ id owner, (∃ key, (id, key) ∈ l ++ [item] ∧
        ownerOf (l ++ [item]) key = some owner ∧ owner ≠ id) ↔
          (findDuplicateKeys l).get? id = some owner ∨
            id = item.1 ∧ ownerOf (l ++ [item]) item.2 = some owner ∧ owner ≠ id := by
      intro id owner
      rw [hlater, ← hold]
      constructor
      · rintro ⟨key, hmem, howner⟩
        rcases List.mem_append.mp hmem with hmem | hmem
        · exact .inl ⟨key, hmem, howner⟩
        · obtain rfl := List.mem_singleton.mp hmem
          exact .inr ⟨rfl, howner⟩
      · rintro (⟨key, hmem, howner⟩ | ⟨rfl, howner⟩)
        · exact ⟨key, List.mem_append_left _ hmem, howner⟩
        · exact ⟨item.2, by simp, howner⟩
    simp only [hsplit]
    rw [findDuplicateKeys, List.foldl_append, List.foldl_cons, List.foldl_nil]
    cases howner : ownerOf l item.2 with
    | none =>
      rw [noteKey_first ((hfirst _).trans howner)]
      constructor
      · intro key
        rw [Dict.get?_insert]
        by_cases hkey : key = item.2
        · rw [if_pos hkey, hkey, ownerOf_append_of_none howner, if_pos rfl]
        · rw [if_neg hkey, hfirst, ownerOf_append, if_neg (Ne.symm hkey), Option.or_none]
      · intro id owner
        rw [ownerOf_append_of_none howner, if_pos rfl]
        constructor
        · exact .inl
        · rintro (h | ⟨rfl, hsame, hne⟩)
          · exact h
          · exact absurd (Option.some.inj hsame).symm hne
    | some first =>
      have hne : first ≠ item.1 := by
        rintro rfl
        exact hnew _ (mem_of_ownerOf howner)
      rw [noteKey_later ((hfirst _).trans howner) hne]
      constructor
      · intro key
        rw [hfirst, ownerOf_append]
        by_cases hkey : item.2 = key
        · rw [← hkey, howner, Option.some_or]
        · rw [if_neg hkey, Option.or_none]
      · intro id owner
        rw [ownerOf_append_of_some howner, Dict.get?_insert]
        by_cases hid : id = item.1
        · subst hid
          rw [if_pos rfl]
          constructor
          · rintro ⟨⟩
            exact .inr ⟨rfl, rfl, hne⟩
          · rintro (h | ⟨-, hsame, -⟩)
            · obtain ⟨key, hmem, -⟩ := (hlater _ _).mp h
              exact absurd hmem (hnew key)
            · exact hsame
        · rw [if_neg hid]
          constructor
          · exact .inl
          · rintro (h | ⟨hsame, -⟩)
            · exact h
            · exact absurd hsame hid

end Duplicates

section Resolving

variable {strict : Bool} {template : List Char} {nodeId stepId : String} {call : Call}
  {id path : String}

def renderedPath (strict : Bool) (template : List Char) (call : Call)
    (devices : List (String × DeviceContext)) (id : String) : Option String :=
  (devices.lookup id).bind fun device =>
    (pathOf strict template call id device).toOption.map String.ofList

def Unrendered (strict : Bool) (template : List Char) (call : Call)
    (devices : List (String × DeviceContext)) (id : String) : Prop :=
  ∃ device e, devices.lookup id = some device ∧ pathOf strict template call id device = .error e

theorem foldl_renderOne (devices : List (String × DeviceContext))
    (hids : (devices.map Prod.fst).Nodup) (resolved : Resolved) (id : String) :
    (devices.foldl (renderOne strict template nodeId stepId call) resolved).1.get? id =
        (renderedPath strict template call devices id).or (resolved.1.get? id) ∧
      (((devices.foldl (renderOne strict template nodeId stepId call) resolved).2.get? id).isSome =
        true ↔ Unrendered strict template call devices id ∨
        (resolved.2.get? id).isSome = true) := by
  induction devices generalizing resolved with
  | nil => simp [renderedPath, Unrendered]
  | cons entry devices ih =>
    obtain ⟨k, device⟩ := entry
    obtain ⟨hk, hids⟩ := List.nodup_cons.mp hids
    obtain ⟨hpath, hfailed⟩ := ih hids (renderOne strict template nodeId stepId call resolved
      (k, device))
    rw [List.foldl_cons, hpath, hfailed]
    by_cases hid : id = k
    · subst hid
      have hnone : devices.lookup id = none := by
        by_contra hsome
        obtain ⟨other, hother⟩ := Option.ne_none_iff_exists'.mp hsome
        obtain ⟨l₁, l₂, rfl, -⟩ := List.lookup_eq_some_iff.mp hother
        exact hk (by simp)
      rw [renderedPath, renderedPath, Unrendered, Unrendered, hnone, Dict.lookup_pair_cons,
        if_pos rfl]
      cases hrender : pathOf strict template call id device with
      | ok text => simp [renderOne, hrender, Except.toOption]
      | error e => simp [renderOne, hrender, Except.toOption]
    · rw [renderedPath, renderedPath, Unrendered, Unrendered, Dict.lookup_pair_cons, if_neg hid]
      cases hrender : pathOf strict template call k device with
      | ok text => simp [renderOne, hrender, hid]
      | error e => simp [renderOne, hrender, hid]

theorem foldl_failDuplicate (nodeId stepId : String) (duplicates : List (String × String))
    (resolved : Resolved)
    (hknown : ∀ duplicate ∈ duplicates, (call.devices.get? duplicate.1).isSome = true ∧
      (call.devices.get? duplicate.2).isSome = true) (id : String) :
    (duplicates.foldl (failDuplicate nodeId stepId call) resolved).1.get? id =
        (if id ∈ duplicates.map Prod.fst then none else resolved.1.get? id) ∧
      (((duplicates.foldl (failDuplicate nodeId stepId call) resolved).2.get? id).isSome = true ↔
        id ∈ duplicates.map Prod.fst ∨ (resolved.2.get? id).isSome = true) := by
  induction duplicates generalizing resolved with
  | nil => simp
  | cons duplicate duplicates ih =>
    obtain ⟨hdevice, howner⟩ := hknown duplicate List.mem_cons_self
    obtain ⟨device, hdevice⟩ := Option.isSome_iff_exists.mp hdevice
    obtain ⟨owner, howner⟩ := Option.isSome_iff_exists.mp howner
    obtain ⟨hpath, hfailed⟩ := ih (failDuplicate nodeId stepId call resolved duplicate)
      fun other hother => hknown other (List.mem_cons_of_mem _ hother)
    rw [List.foldl_cons, hpath, hfailed]
    simp only [failDuplicate, hdevice, howner, List.map_cons, List.mem_cons, Dict.get?_restrict,
      Dict.get?_insert]
    by_cases hid : id = duplicate.1
    · simp [hid]
    · have hmem : id = duplicate.1 ∨ id ∈ duplicates.map Prod.fst ↔
          id ∈ duplicates.map Prod.fst := or_iff_right hid
      have hkeep : (if decide (id ≠ duplicate.1) = true then resolved.1.get? id else none) =
          resolved.1.get? id := if_pos (by simpa using hid)
      rw [if_congr hmem rfl rfl, hmem, if_neg hid, hkeep]
      exact ⟨rfl, Iff.rfl⟩

theorem renderedPath_eq_some {devices : List (String × DeviceContext)} :
    renderedPath strict template call devices id = some path ↔
      ∃ device text, devices.lookup id = some device ∧
        pathOf strict template call id device = .ok text ∧ String.ofList text = path := by
  simp only [renderedPath, Option.bind_eq_some_iff, Option.map_eq_some_iff, toOption_eq_some]
  constructor
  · rintro ⟨device, hdevice, text, htext, hpath⟩
    exact ⟨device, text, hdevice, htext, hpath⟩
  · rintro ⟨device, text, hdevice, htext, hpath⟩
    exact ⟨device, hdevice, text, htext, hpath⟩

def rendered (strict : Bool) (template : List Char) (nodeId stepId : String) (call : Call) :
    Resolved :=
  call.devices.entries.foldl (renderOne strict template nodeId stepId call) (∅, ∅)

theorem get?_rendered : (rendered strict template nodeId stepId call).1.get? id =
    renderedPath strict template call call.devices.entries id := by
  rw [rendered, (foldl_renderOne _ call.devices.nodup (∅, ∅) id).1]
  exact Option.or_none

theorem isSome_rendered : ((rendered strict template nodeId stepId call).2.get? id).isSome = true ↔
    Unrendered strict template call call.devices.entries id := by
  rw [rendered, (foldl_renderOne _ call.devices.nodup (∅, ∅) id).2]
  exact or_iff_left Bool.false_ne_true

def owner (strict : Bool) (template : List Char) (nodeId stepId : String) (call : Call)
    (path : String) : Option String :=
  ownerOf (rendered strict template nodeId stepId call).1.entries path

theorem get?_duplicates {first : String} :
    (findDuplicateKeys (rendered strict template nodeId stepId call).1.entries).get? id =
        some first ↔ ∃ path, (rendered strict template nodeId stepId call).1.get? id = some path ∧
      owner strict template nodeId stepId call path = some first ∧ first ≠ id := by
  rw [(foldl_noteKey _ (rendered strict template nodeId stepId call).1.nodup).2]
  simp only [← Dict.get?_eq_some_iff]
  rfl

theorem isSome_devices (h : (rendered strict template nodeId stepId call).1.get? id = some path) :
    (call.devices.get? id).isSome = true := by
  rw [get?_rendered, renderedPath_eq_some] at h
  obtain ⟨device, text, hdevice, -⟩ := h
  rw [Dict.get?, hdevice]
  rfl

theorem owner_eq_some {first : String}
    (h : owner strict template nodeId stepId call path = some first) :
    (rendered strict template nodeId stepId call).1.get? first = some path :=
  Dict.get?_eq_some_iff.mpr (mem_of_ownerOf h)

theorem owner_isSome (h : (rendered strict template nodeId stepId call).1.get? id = some path) :
    ∃ first, owner strict template nodeId stepId call path = some first :=
  ownerOf_isSome (Dict.get?_eq_some_iff.mp h)

theorem mem_duplicates : id ∈ (findDuplicateKeys
    (rendered strict template nodeId stepId call).1.entries).entries.map Prod.fst ↔
      ∃ path, (rendered strict template nodeId stepId call).1.get? id = some path ∧
        owner strict template nodeId stepId call path ≠ some id := by
  have hkeys : id ∈ (findDuplicateKeys
      (rendered strict template nodeId stepId call).1.entries).keys ↔ _ := Dict.mem_keys_iff
  rw [← Dict.keys, hkeys, Option.isSome_iff_exists]
  simp only [get?_duplicates]
  constructor
  · rintro ⟨first, path, hpath, hfirst, hne⟩
    refine ⟨path, hpath, fun hsame => hne ?_⟩
    exact Option.some.inj (hfirst.symm.trans hsame)
  · rintro ⟨path, hpath, hne⟩
    obtain ⟨first, hfirst⟩ := owner_isSome hpath
    refine ⟨first, path, hpath, hfirst, fun hsame => hne ?_⟩
    rw [hfirst, hsame]

/-- A device keeps its path if it is the first one that has it, and fails otherwise. -/
theorem resolve_spec (strict : Bool) (template : List Char) (nodeId stepId : String) (call : Call)
    (id path : String) :
    ((resolveSecretPaths strict template nodeId stepId call).1.get? id = some path ↔
      (rendered strict template nodeId stepId call).1.get? id = some path ∧
        owner strict template nodeId stepId call path = some id) ∧
    (((resolveSecretPaths strict template nodeId stepId call).2.get? id).isSome = true ↔
      (∃ path, (rendered strict template nodeId stepId call).1.get? id = some path ∧
        owner strict template nodeId stepId call path ≠ some id) ∨
      Unrendered strict template call call.devices.entries id) := by
  have hknown : ∀ duplicate ∈ (findDuplicateKeys
      (rendered strict template nodeId stepId call).1.entries).entries,
      (call.devices.get? duplicate.1).isSome = true ∧
        (call.devices.get? duplicate.2).isSome = true := by
    intro duplicate hmem
    obtain ⟨path, hpath, hfirst, -⟩ := get?_duplicates.mp (Dict.get?_eq_some_iff.mpr hmem)
    exact ⟨isSome_devices hpath, isSome_devices (owner_eq_some hfirst)⟩
  obtain ⟨hpath, hfailed⟩ := foldl_failDuplicate nodeId stepId _
    (rendered strict template nodeId stepId call) hknown id
  have hresolve : resolveSecretPaths strict template nodeId stepId call =
      (findDuplicateKeys (rendered strict template nodeId stepId call).1.entries).entries.foldl
        (failDuplicate nodeId stepId call) (rendered strict template nodeId stepId call) := rfl
  rw [hresolve, hpath, hfailed, isSome_rendered]
  refine ⟨?_, or_congr mem_duplicates Iff.rfl⟩
  split
  next hdup =>
    obtain ⟨path', hpath', hne⟩ := mem_duplicates.mp hdup
    constructor
    · rintro ⟨⟩
    · rintro ⟨hpath, howner⟩
      obtain rfl := Option.some.inj (hpath'.symm.trans hpath)
      exact absurd howner hne
  next hdup =>
    constructor
    · intro hpath
      refine ⟨hpath, ?_⟩
      by_contra hne
      exact hdup (mem_duplicates.mpr ⟨path, hpath, hne⟩)
    · exact And.left

/-- What one call promises: every device has a path or fails, and the paths are well formed and
all different. -/
structure OneEach (template : List Char) (devices : Dict DeviceContext) (resolved : Resolved) :
    Prop where
  placed : ∀ id, (devices.get? id).isSome = true →
    ((resolved.1.get? id).isSome = true ↔ ¬ (resolved.2.get? id).isSome = true)
  known : ∀ id, (resolved.1.get? id).isSome = true ∨ (resolved.2.get? id).isSome = true →
    (devices.get? id).isSome = true
  wellFormed : ∀ id path, resolved.1.get? id = some path → WellFormed template path.toList
  distinct : ∀ id id' path, resolved.1.get? id = some path → resolved.1.get? id' = some path →
    id = id'

theorem resolveSecretPaths_oneEach (strict : Bool) (template : List Char) (nodeId stepId : String)
    (call : Call) : OneEach template call.devices
      (resolveSecretPaths strict template nodeId stepId call) := by
  have hkept : ∀ id, ((resolveSecretPaths strict template nodeId stepId call).1.get? id).isSome =
      true ↔ ∃ path, (rendered strict template nodeId stepId call).1.get? id = some path ∧
        owner strict template nodeId stepId call path = some id := by
    intro id
    rw [Option.isSome_iff_exists]
    exact exists_congr fun path => (resolve_spec strict template nodeId stepId call id path).1
  have hfailed := fun id => (resolve_spec strict template nodeId stepId call id "").2
  constructor
  · intro id hknown
    obtain ⟨device, hdevice⟩ := Option.isSome_iff_exists.mp hknown
    rw [hkept, hfailed]
    cases hrender : pathOf strict template call id device with
    | ok text =>
      have hrendered : (rendered strict template nodeId stepId call).1.get? id =
          some (String.ofList text) := by
        rw [get?_rendered, renderedPath_eq_some]
        exact ⟨device, text, hdevice, hrender, rfl⟩
      constructor
      · rintro ⟨path, hpath, howner⟩ (⟨path', hpath', hne⟩ | ⟨device', e, hdevice', herror⟩)
        · obtain rfl := Option.some.inj (hpath.symm.trans hpath')
          exact hne howner
        · obtain rfl := Option.some.inj (hdevice.symm.trans hdevice')
          rw [hrender] at herror
          cases herror
      · intro hnot
        refine ⟨_, hrendered, ?_⟩
        by_contra hne
        exact hnot (.inl ⟨_, hrendered, hne⟩)
    | error e =>
      constructor
      · rintro ⟨path, hpath, -⟩
        rw [get?_rendered, renderedPath_eq_some] at hpath
        obtain ⟨device', text, hdevice', htext, -⟩ := hpath
        obtain rfl := Option.some.inj (hdevice.symm.trans hdevice')
        rw [hrender] at htext
        cases htext
      · exact fun hnot => absurd (.inr ⟨device, e, hdevice, hrender⟩) hnot
  · intro id hid
    rw [hkept, hfailed] at hid
    rcases hid with ⟨path, hpath, -⟩ | ⟨path, hpath, -⟩ | ⟨device, e, hdevice, -⟩
    · exact isSome_devices hpath
    · exact isSome_devices hpath
    · exact Option.isSome_iff_exists.mpr ⟨device, hdevice⟩
  · intro id path hpath
    have hrendered := ((resolve_spec _ _ _ _ _ _ _).1.mp hpath).1
    rw [get?_rendered, renderedPath_eq_some] at hrendered
    obtain ⟨device, text, -, htext, rfl⟩ := hrendered
    rw [String.toList_ofList]
    exact renderSecretPath_wellFormed htext
  · intro id id' path hpath hpath'
    have hid := ((resolve_spec _ _ _ _ _ _ _).1.mp hpath).2
    have hid' := ((resolve_spec _ _ _ _ _ _ _).1.mp hpath').2
    exact Option.some.inj (hid.symm.trans hid')

theorem exists_resolved (nodeId stepId : String) :
    (∃ id, (resolveSecretPaths strict template nodeId stepId call).1.get? id = some path) ↔
      ∃ id device text, call.devices.get? id = some device ∧
        pathOf strict template call id device = .ok text ∧ String.ofList text = path := by
  constructor
  · rintro ⟨id, h⟩
    have hrendered := ((resolve_spec _ _ _ _ _ _ _).1.mp h).1
    rw [get?_rendered, renderedPath_eq_some] at hrendered
    exact ⟨id, hrendered⟩
  · rintro ⟨id, hdevice⟩
    have hrendered : (rendered strict template nodeId stepId call).1.get? id = some path := by
      rw [get?_rendered, renderedPath_eq_some]
      exact hdevice
    obtain ⟨first, hfirst⟩ := owner_isSome hrendered
    exact ⟨first, (resolve_spec _ _ _ _ _ _ _).1.mpr ⟨owner_eq_some hfirst, hfirst⟩⟩

end Resolving

section Groups

/-- Over calls for groups of devices, each call keeps its promise and no two share a path. -/
structure OneSecretEach (strict : Bool) (template : List Char) (nodeId stepId : String)
    (groups : List Call) : Prop where
  each : ∀ call ∈ groups, OneEach template call.devices
    (resolveSecretPaths strict template nodeId stepId call)
  apart : groups.Pairwise fun g h => ∀ id id' path,
    (resolveSecretPaths strict template nodeId stepId g).1.get? id = some path →
      (resolveSecretPaths strict template nodeId stepId h).1.get? id' ≠ some path

theorem shared_iff (strict : Bool) (template : List Char) (nodeId stepId : String) (g h : Call) :
    (∃ id id' path, (resolveSecretPaths strict template nodeId stepId g).1.get? id = some path ∧
      (resolveSecretPaths strict template nodeId stepId h).1.get? id' = some path) ↔
    ∃ id device id' device' path, g.devices.get? id = some device ∧
      h.devices.get? id' = some device' ∧ pathOf strict template g id device = .ok path ∧
        pathOf strict template h id' device' = .ok path := by
  constructor
  · rintro ⟨id, id', path, hg, hh⟩
    obtain ⟨id, device, text, hdevice, htext, rfl⟩ := (exists_resolved _ _).mp ⟨id, hg⟩
    obtain ⟨id', device', text', hdevice', htext', hsame⟩ := (exists_resolved _ _).mp ⟨id', hh⟩
    obtain rfl := String.ofList_injective hsame
    exact ⟨id, device, id', device', text', hdevice, hdevice', htext, htext'⟩
  · rintro ⟨id, device, id', device', path, hdevice, hdevice', htext, htext'⟩
    obtain ⟨first, hfirst⟩ := (exists_resolved nodeId stepId).mpr
      ⟨id, device, path, hdevice, htext, rfl⟩
    obtain ⟨first', hfirst'⟩ := (exists_resolved nodeId stepId).mpr
      ⟨id', device', path, hdevice', htext', rfl⟩
    exact ⟨first, first', _, hfirst, hfirst'⟩

/-- The devices of all groups have secrets of their own exactly if no path is given to devices of
two groups. -/
theorem oneSecretEach_iff (strict : Bool) (template : List Char) (nodeId stepId : String)
    (groups : List Call) :
    OneSecretEach strict template nodeId stepId groups ↔
      groups.Pairwise fun g h => ∀ id device id' device' path, g.devices.get? id = some device →
        h.devices.get? id' = some device' → pathOf strict template g id device = .ok path →
          pathOf strict template h id' device' ≠ .ok path := by
  have hpair : ∀ g h : Call, (∀ id id' path,
      (resolveSecretPaths strict template nodeId stepId g).1.get? id = some path →
        (resolveSecretPaths strict template nodeId stepId h).1.get? id' ≠ some path) ↔
      ∀ id device id' device' path, g.devices.get? id = some device →
        h.devices.get? id' = some device' → pathOf strict template g id device = .ok path →
          pathOf strict template h id' device' ≠ .ok path := by
    intro g h
    have hshared := not_congr (shared_iff strict template nodeId stepId g h)
    push Not at hshared
    exact hshared
  constructor
  · intro h
    exact h.apart.imp fun hgroups => (hpair _ _).mp hgroups
  · intro h
    constructor
    · exact fun call _ => resolveSecretPaths_oneEach strict template nodeId stepId call
    · exact h.imp fun hgroups => (hpair _ _).mpr hgroups

def groupOf (id name : String) : Call where
  devices := ⟨[(id, { id := id, name := name, hostname := name })], by simp⟩
  moments _ _ := ⟨"20250101-000000", "20250101", some "run"⟩

/-- `a:b` and `a_b` have one secret when they are not in one call. -/
theorem splitDevices_collide :
    ¬ OneSecretEach true "net/\x7bdevice.name\x7d".toList "n1" "secret-set"
      [groupOf "d1" "a:b", groupOf "d2" "a_b"] := by
  intro h
  have hfirst : (resolveSecretPaths true "net/\x7bdevice.name\x7d".toList "n1" "secret-set"
      (groupOf "d1" "a:b")).1.get? "d1" = some "net/a_b" := by
    decide +kernel
  have hsecond : (resolveSecretPaths true "net/\x7bdevice.name\x7d".toList "n1" "secret-set"
      (groupOf "d2" "a_b")).1.get? "d2" = some "net/a_b" := by
    decide +kernel
  exact List.rel_of_pairwise_cons h.apart List.mem_cons_self "d1" "d2" _ hfirst hsecond

end Groups

end Manus.SecretPaths
