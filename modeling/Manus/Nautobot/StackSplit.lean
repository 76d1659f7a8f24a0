import Manus.Nautobot.VirtualChassis

/-! # Stacks split early and late

The members that come into a workflow one by one, against those that a later step
makes of the one device of the stack. The later step reads the records of the
members back, under keys of which the settings choose one.
-/

namespace Manus.VirtualChassis

section Fields

variable {value : Json} {text : String}

def isOptionalText : Json → Bool
  | .null => true
  | .str _ => true
  | _ => false

theorem optionalTextField_isOk (name : String) :
    (∃ t, optionalTextField name value = .ok t) ↔ isOptionalText value = true := by
  cases value <;> simp [optionalTextField, isOptionalText]

/-- A value that counts as true is not written as the empty text. -/
theorem pyStr_ne_empty (h : value.truthy = true) : pyStr value ≠ "" := by
  cases value with
  | null => cases h
  | bool b =>
    cases b
    · cases h
    · decide
  | int n =>
    cases n with
    | ofNat n => exact Nat.repr_ne_empty
    | negSucc n =>
      intro hempty
      have := congrArg String.toList hempty
      simp [pyStr, pyReprJson, toString, Int.repr] at this
  | str s => simpa [Json.truthy, pyStr] using h
  | arr items =>
    intro hempty
    have := congrArg String.toList hempty
    simp [pyStr, pyReprJson] at this
  | obj fields =>
    intro hempty
    have := congrArg String.toList hempty
    simp [pyStr, pyReprJson] at this

theorem pyStr_orElse_str : pyStr (orElse (some (.str text)) (.str "")) = text := by
  by_cases h : text = ""
  · subst h
    rfl
  · simp [orElse, Json.truthy, h, pyStr]

end Fields

section Members

variable {settings : StackSettings} {vc : Json} {member master : Member} {key : String}

theorem pickMaster_mem {members : List Member} (h : pickMaster members = some master) :
    master ∈ members := by
  rw [pickMaster] at h
  split at h
  next found hfound =>
    cases h
    exact List.mem_of_find?_eq_some hfound
  next =>
    rw [List.head?_eq_some_iff] at h
    obtain ⟨rest, hrest⟩ := h
    have hmem : master ∈ members.mergeSort fun a b => comesBefore a.1 b.1 := by
      rw [hrest]
      exact List.mem_cons_self
    exact List.mem_mergeSort.mp hmem

theorem eq_of_place (h : member ∈ orderedMembers vc) (h' : master ∈ orderedMembers vc)
    (hplace : member.2 = master.2) : member = master := by
  rw [orderedMembers] at h h'
  split at h
  next raw hraw =>
    rw [hraw] at h'
    rw [List.mem_zipIdx_iff_getElem?] at h h'
    rw [hplace] at h
    exact Prod.ext (Option.some.inj (h.symm.trans h')) hplace
  next => cases h

theorem get?_indexedRecord :
    (indexedRecord settings master member).get? key =
      if key = settings.indexKey then some (.int (memberIndex (nameOf member.1) settings))
      else (memberRecord member master).get? key := Dict.get?_insert _ _ _ _

@[simp] theorem get?_memberRecord_id :
    (memberRecord member master).get? "id" = some (field member.1 "id") := rfl

@[simp] theorem get?_memberRecord_name :
    (memberRecord member master).get? "name" = some (.str (nameOf member.1)) := rfl

@[simp] theorem get?_memberRecord_isMaster : (memberRecord member master).get? "is_master" =
    some (.bool (member.2 = master.2)) := rfl

@[simp] theorem get?_memberBag_masterName {vcId vcName masterName : String} {memberCount : ℕ}
    {record : List (String × Json)} :
    (memberBag vcId vcName memberCount record masterName).get? "master_name" =
      some (.str masterName) := by
  rw [memberBag, Dict.get?_insert, if_pos rfl]

theorem memberBag_inj {vcId vcName name name' : String} {memberCount : ℕ}
    {record : List (String × Json)} :
    memberBag vcId vcName memberCount record name = memberBag vcId vcName memberCount record name' ↔
      name = name' := by
  constructor
  · intro h
    have hname := congrArg (·.get? "master_name") h
    simpa using hname
  · rintro rfl
    rfl

end Members

def shownAs (device : DeviceContext) : String × String × Option String × Dict (Dict Json) :=
  (device.id, device.name, device.primaryIp4, device.attributeBags)

section Build

variable {settings : StackSettings} {sourceId nodeId id masterIp text : String} {name : Json}
  {platform : Json × Json} {bag : Dict Json} {device : DeviceContext} {vc : Json}
  {memberCount : ℕ} {master member : Member}

theorem textField_isOk {fieldName : String} :
    (∃ t, textField fieldName name = .ok t) ↔ ∃ t, name = .str t := by
  cases name <;> simp [textField]

theorem bareHostname_str (masterIp text : String) :
    ∃ t, bareHostname masterIp (.str text) = .str t := by
  rw [bareHostname]
  split
  · exact ⟨_, rfl⟩
  · exact ⟨_, rfl⟩

theorem reachableDevice_isOk :
    (∃ d, reachableDevice settings sourceId id masterIp name platform bag = .ok d) ↔
      (∃ t, name = .str t) ∧ isOptionalText platform.1 = true ∧
        isOptionalText platform.2 = true := by
  simp only [reachableDevice, bind_eq_ok]
  constructor
  · rintro ⟨d, t, ht, host, -, p, hp, q, hq, -⟩
    exact ⟨textField_isOk.mp ⟨t, ht⟩, (optionalTextField_isOk _).mp ⟨p, hp⟩,
      (optionalTextField_isOk _).mp ⟨q, hq⟩⟩
  · rintro ⟨⟨t, rfl⟩, hp, hq⟩
    obtain ⟨host, hhost⟩ := bareHostname_str masterIp t
    obtain ⟨p, hp⟩ := (optionalTextField_isOk "platform").mpr hp
    obtain ⟨q, hq⟩ := (optionalTextField_isOk "network_driver").mpr hq
    exact ⟨_, t, rfl, host, by rw [hhost]; rfl, p, hp, q, hq, rfl⟩

theorem shownAs_reachableDevice
    (h : reachableDevice settings sourceId id masterIp (.str text) platform bag = .ok device) :
    shownAs device =
      (id, text, some masterIp, (∅ : Dict (Dict Json)).insert settings.attributeBag bag) := by
  simp only [reachableDevice, bind_eq_ok] at h
  obtain ⟨t, ht, host, -, p, -, q, -, hdevice⟩ := h
  cases ht
  cases hdevice
  rfl

theorem isOptionalText_orElse {value fallback : Json} (hvalue : isOptionalText value = true)
    (hfallback : isOptionalText fallback = true) :
    isOptionalText (orElse (some value) fallback) = true := by
  rw [orElse]
  split
  · exact hvalue
  · exact hfallback

theorem isOptionalText_of_orElse {value : Option Json} {fallback : Json}
    (h : isOptionalText (orElse (some (orElse value .null)) fallback) = true) :
    isOptionalText (orElse value .null) = true := by
  by_cases htrue : (orElse value .null).truthy = true
  · rw [orElse, Option.getD_some, if_pos htrue] at h
    exact h
  · rw [orElse] at htrue ⊢
    split
    next hvalue => simp [hvalue] at htrue
    next => rfl

/-- The names of the platform of a member are texts, as far as there are any. -/
def TextPlatform (member : Json) : Prop :=
  isOptionalText (platformOf member).1 = true ∧ isOptionalText (platformOf member).2 = true

theorem buildMember_isOk (hmaster : TextPlatform master.1) :
    (∃ d, buildMember settings sourceId vc memberCount master masterIp member = .ok d) ↔
      settings.indexKey ≠ "name" ∧ TextPlatform member.1 := by
  simp only [buildMember, reachableDevice_isOk, get?_indexedRecord]
  constructor
  · rintro ⟨⟨t, hname⟩, hplatform, hdriver⟩
    refine ⟨?_, isOptionalText_of_orElse hplatform, isOptionalText_of_orElse hdriver⟩
    rintro hkey
    rw [if_pos hkey.symm] at hname
    cases hname
  · rintro ⟨hkey, hplatform, hdriver⟩
    rw [if_neg (Ne.symm hkey)]
    exact ⟨⟨_, rfl⟩, isOptionalText_orElse hplatform hmaster.1,
      isOptionalText_orElse hdriver hmaster.2⟩

def earlyBag (settings : StackSettings) (vc : Json) (memberCount : ℕ) (master member : Member) :
    Dict Json :=
  memberBag (vcIdOf vc) (vcNameOf vc) memberCount (indexedRecord settings master member).entries
    (nameOf master.1)

theorem shownAs_buildMember
    (h : buildMember settings sourceId vc memberCount master masterIp member = .ok device) :
    shownAs device = (pyStr (field member.1 "id"), nameOf member.1, some masterIp,
      (∅ : Dict (Dict Json)).insert settings.attributeBag
        (earlyBag settings vc memberCount master member)) := by
  rw [buildMember] at h
  obtain ⟨⟨t, hname⟩, -⟩ := reachableDevice_isOk.mp ⟨device, h⟩
  rw [get?_indexedRecord] at hname
  split at hname
  next => cases hname
  next hkey =>
    cases hname
    rw [get?_indexedRecord, if_neg hkey] at h
    exact shownAs_reachableDevice h

end Build

section Lists

variable {settings : StackSettings} {sourceId nodeId masterIp : String} {vc : Json}
  {master member : Member} {records : List (Dict Json)} {masterRecord : Dict Json}
  {stack : DeviceContext} {devices : List DeviceContext}

theorem map_of_mapM_ok {α β γ ε : Type} {f : α → Except ε β} {v : β → γ} {g : α → γ} {l : List α}
    {out : List β} (h : l.mapM f = .ok out) (hstep : ∀ a ∈ l, ∀ b, f a = .ok b → v b = g a) :
    out.map v = l.map g := by
  induction l generalizing out with
  | nil =>
    cases h
    rfl
  | cons a l ih =>
    simp only [List.mapM_cons, bind_eq_ok] at h
    obtain ⟨b, hb, rest, hrest, hout⟩ := h
    cases hout
    rw [List.map_cons, List.map_cons, hstep a List.mem_cons_self b hb,
      ih hrest fun a' ha' => hstep a' (List.mem_cons_of_mem _ ha')]

theorem build_split (hmaster : pickMaster (orderedMembers vc) = some master)
    (hip : addressOf master.1 = some masterIp) :
    buildStackDevices { settings with splitMembers := true } sourceId nodeId vc =
      (orderedMembers vc).mapM
        (buildMember settings sourceId vc (orderedMembers vc).length master masterIp) := by
  simp only [buildStackDevices, hmaster, hip, if_true]
  rfl

theorem build_whole (hmaster : pickMaster (orderedMembers vc) = some master)
    (hip : addressOf master.1 = some masterIp) :
    buildStackDevices { settings with splitMembers := false } sourceId nodeId vc =
      buildWhole settings sourceId vc master masterIp
        ((orderedMembers vc).map (indexedRecord settings master)) := by
  simp only [buildStackDevices, hmaster, hip, Bool.false_eq_true, if_false]
  rfl

theorem buildWhole_isOk :
    (∃ device, buildWhole settings sourceId vc master masterIp records = .ok [device]) ↔
      (masterRecordOf records).isSome = true ∧ TextPlatform master.1 := by
  rw [buildWhole]
  cases masterRecordOf records with
  | none => simp
  | some masterRecord =>
    simp only [bind_eq_ok, Option.isSome_some, true_and]
    constructor
    · rintro ⟨device, built, hbuilt, -⟩
      exact (reachableDevice_isOk.mp ⟨built, hbuilt⟩).2
    · intro hplatform
      obtain ⟨device, hdevice⟩ := reachableDevice_isOk.mpr ⟨⟨vcNameOf vc, rfl⟩, hplatform⟩
      exact ⟨device, device, hdevice, rfl⟩

theorem shownAs_buildWhole
    (h : buildWhole settings sourceId vc master masterIp records = .ok [stack])
    (hrecord : masterRecordOf records = some masterRecord) :
    shownAs stack = (pyStr (field master.1 "id"), vcNameOf vc, some masterIp,
      (∅ : Dict (Dict Json)).insert settings.attributeBag (stackBag vc records masterRecord)) := by
  simp only [buildWhole, hrecord, bind_eq_ok] at h
  obtain ⟨built, hbuilt, hsame⟩ := h
  cases hsame
  exact shownAs_reachableDevice hbuilt

theorem memberRecords_stackBag : memberRecords (stackBag vc records masterRecord) =
    if records ≠ [] ∧ ∀ record ∈ records, ((record.get? "id").getD .null).truthy = true then
      some (records.map fun record => .obj record.entries) else none := by
  have hmembers : ((stackBag vc records masterRecord).get? "members").getD .null =
      .arr (records.map fun record => .obj record.entries) := rfl
  simp only [memberRecords, hmembers, List.length_filter_eq_length_iff, List.forall_mem_map,
    isObject, Bool.true_and, ne_eq, List.map_eq_nil_iff]
  split
  next h =>
    refine Eq.trans (congrArg some (List.filter_eq_self.mpr ?_)) (if_pos h).symm
    simpa [List.forall_mem_map] using h.2
  next h => exact (if_neg h).symm

def lateBag (vc : Json) (memberCount : ℕ) (masterRecord record : Dict Json) : Dict Json :=
  memberBag (vcIdOf vc) (vcNameOf vc) memberCount record.entries
    (pyStr (orElse (masterRecord.get? "name") (.str "")))

theorem restrict_insert_self {k : String} {bag : Dict Json} :
    ((∅ : Dict (Dict Json)).insert k bag).restrict (· ≠ k) = ∅ := by
  apply Dict.ext_entries
  change List.filter (fun entry => decide (entry.1 ≠ k)) [(k, bag)] = []
  simp

theorem splitStackDevice_eq (hname : stack.name = vcNameOf vc)
    (hbags : stack.attributeBags = (∅ : Dict (Dict Json)).insert settings.attributeBag
      (stackBag vc records masterRecord)) :
    (splitStackDevice stack settings.attributeBag).map (List.map shownAs) =
      if records ≠ [] ∧ ∀ record ∈ records, ((record.get? "id").getD .null).truthy = true then
        some (records.map fun record => (pyStr ((record.get? "id").getD .null),
          pyStr (orElse (record.get? "name") ((record.get? "id").getD .null)), stack.primaryIp4,
          (∅ : Dict (Dict Json)).insert settings.attributeBag
            (lateBag vc records.length masterRecord record))) else none := by
  have hbag : stack.attributeBags.get? settings.attributeBag =
      some (stackBag vc records masterRecord) := by
    rw [hbags, Dict.get?_insert, if_pos rfl]
  have hid : pyStr (orElse ((stackBag vc records masterRecord).get? "vc_id") (.str "")) =
      vcIdOf vc := pyStr_orElse_str
  have hvc : pyStr (orElse ((stackBag vc records masterRecord).get? "vc_name")
      (.str stack.name)) = vcNameOf vc := by
    rw [hname]
    change pyStr (orElse (some (.str (vcNameOf vc))) (.str (vcNameOf vc))) = _
    rw [orElse]
    split <;> rfl
  simp only [splitStackDevice, hbag, memberRecords_stackBag, Option.bind_eq_bind, Option.bind_some]
  split
  next h =>
    simp only [Option.bind_some, Option.pure_def, Option.map_some, hid, hvc, List.map_map,
      List.length_map]
    refine congrArg some (List.map_congr_left fun record _ => ?_)
    simp only [Function.comp_apply, shownAs, splitMember, hbags, restrict_insert_self]
    rfl
  next h => rfl

end Lists

section Alike

variable {settings : StackSettings} {sourceId nodeId masterIp : String} {vc : Json}
  {master member first : Member}

/-- Split early and split late, a stack has the same members, under their own ids. -/
def SplitsAlike (settings : StackSettings) (sourceId nodeId : String) (vc : Json) : Prop :=
  ∃ early stack late,
    buildStackDevices { settings with splitMembers := true } sourceId nodeId vc = .ok early ∧
    buildStackDevices { settings with splitMembers := false } sourceId nodeId vc = .ok [stack] ∧
    splitStackDevice stack settings.attributeBag = some late ∧
    early.map shownAs = late.map shownAs ∧
    late.map DeviceContext.id = (orderedMembers vc).map fun member => pyStr (field member.1 "id")

def recordId (settings : StackSettings) (master member : Member) : Json :=
  ((indexedRecord settings master member).get? "id").getD .null

def earlyShown (settings : StackSettings) (vc : Json) (masterIp : String)
    (master member : Member) : String × String × Option String × Dict (Dict Json) :=
  (pyStr (field member.1 "id"), nameOf member.1, some masterIp,
    (∅ : Dict (Dict Json)).insert settings.attributeBag
      (earlyBag settings vc (orderedMembers vc).length master member))

def lateShown (settings : StackSettings) (vc : Json) (masterIp : String)
    (master first member : Member) : String × String × Option String × Dict (Dict Json) :=
  let record := indexedRecord settings master member
  (pyStr (recordId settings master member),
    pyStr (orElse (record.get? "name") (recordId settings master member)), some masterIp,
    (∅ : Dict (Dict Json)).insert settings.attributeBag
      (lateBag vc (orderedMembers vc).length (indexedRecord settings master first) record))

theorem insert_empty_inj {k : String} {bag bag' : Dict Json} :
    (∅ : Dict (Dict Json)).insert k bag = (∅ : Dict (Dict Json)).insert k bag' ↔ bag = bag' := by
  constructor
  · intro h
    have hbag := congrArg (·.get? k) h
    simpa using hbag
  · rintro rfl
    rfl

theorem pyStr_orElse_eq {name : String} {id : Json} (hid : id.truthy = true) :
    name = pyStr (orElse (some (.str name)) id) ↔ name ≠ "" := by
  by_cases h : name = ""
  · subst h
    simpa [orElse, Json.truthy] using (pyStr_ne_empty hid).symm
  · simp [orElse, Json.truthy, h, pyStr]

theorem earlyShown_eq_lateShown (hkey : settings.indexKey ≠ "name")
    (hid : (recordId settings master member).truthy = true) :
    earlyShown settings vc masterIp master member =
        lateShown settings vc masterIp master first member ↔
      pyStr (field member.1 "id") = pyStr (recordId settings master member) ∧
        nameOf member.1 ≠ "" ∧ nameOf master.1 = nameOf first.1 := by
  have hname : ∀ m : Member, (indexedRecord settings master m).get? "name" =
      some (.str (nameOf m.1)) := by
    intro m
    rw [get?_indexedRecord, if_neg (Ne.symm hkey), get?_memberRecord_name]
  simp only [earlyShown, lateShown, Prod.mk.injEq, true_and, insert_empty_inj, earlyBag, lateBag,
    memberBag_inj, hname, pyStr_orElse_str, pyStr_orElse_eq hid]

theorem masterRecordOf_map {members : List Member} :
    masterRecordOf (members.map (indexedRecord settings master)) =
      (members.find? fun member => (((indexedRecord settings master member).get?
        "is_master").getD .null).truthy).map (indexedRecord settings master) := List.find?_map ..

/-- The two ways give the same, member by member. -/
theorem splitsAlike_iff_members (hmaster : pickMaster (orderedMembers vc) = some master)
    (hip : addressOf master.1 = some masterIp) :
    SplitsAlike settings sourceId nodeId vc ↔
      ∃ first, masterRecordOf ((orderedMembers vc).map (indexedRecord settings master)) =
          some (indexedRecord settings master first) ∧
        settings.indexKey ≠ "name" ∧ ∀ member ∈ orderedMembers vc, TextPlatform member.1 ∧
          (recordId settings master member).truthy = true ∧
          pyStr (field member.1 "id") = pyStr (recordId settings master member) ∧
          nameOf member.1 ≠ "" ∧ nameOf master.1 = nameOf first.1 := by
  have hmem := pickMaster_mem hmaster
  have hlate : ∀ stack first,
      buildWhole settings sourceId vc master masterIp
        ((orderedMembers vc).map (indexedRecord settings master)) = .ok [stack] →
      masterRecordOf ((orderedMembers vc).map (indexedRecord settings master)) =
        some (indexedRecord settings master first) →
      (splitStackDevice stack settings.attributeBag).map (List.map shownAs) =
        if ∀ member ∈ orderedMembers vc, (recordId settings master member).truthy = true then
          some ((orderedMembers vc).map (lateShown settings vc masterIp master first))
        else none := by
    intro stack first hstack hfirst
    have hshown := shownAs_buildWhole hstack hfirst
    simp only [shownAs, Prod.mk.injEq] at hshown
    obtain ⟨-, hname, hprimary, hbags⟩ := hshown
    rw [splitStackDevice_eq hname hbags, hprimary]
    have hne : (orderedMembers vc).map (indexedRecord settings master) ≠ [] :=
      List.ne_nil_of_mem (List.mem_map_of_mem hmem)
    simp only [List.forall_mem_map, List.map_map, List.length_map, and_iff_right hne]
    rfl
  rw [SplitsAlike, build_split hmaster hip, build_whole hmaster hip]
  constructor
  · rintro ⟨early, stack, late, hearly, hstack, hsplit, hsame, -⟩
    obtain ⟨hrecord, hplatform⟩ := buildWhole_isOk.mp ⟨stack, hstack⟩
    obtain ⟨record, hrecord⟩ := Option.isSome_iff_exists.mp hrecord
    obtain ⟨first, -, rfl⟩ := Option.map_eq_some_iff.mp (masterRecordOf_map.symm.trans hrecord)
    have hbuilt : ∀ member ∈ orderedMembers vc,
        settings.indexKey ≠ "name" ∧ TextPlatform member.1 := fun member hmember =>
      (buildMember_isOk hplatform).mp (exists_mapM_eq_ok.mp ⟨early, hearly⟩ member hmember)
    have hkey := (hbuilt master hmem).1
    have hearly' : early.map shownAs =
        (orderedMembers vc).map (earlyShown settings vc masterIp master) :=
      map_of_mapM_ok hearly fun _ _ _ => shownAs_buildMember
    have hlate' := hlate stack first hstack hrecord
    rw [hsplit] at hlate'
    split at hlate'
    next hids =>
      have hshown := hearly'.symm.trans (hsame.trans (Option.some.inj hlate'))
      rw [List.map_inj_left] at hshown
      refine ⟨first, hrecord, hkey, fun member hmember => ?_⟩
      exact ⟨(hbuilt member hmember).2, hids member hmember,
        (earlyShown_eq_lateShown hkey (hids member hmember)).mp (hshown member hmember)⟩
    next => cases hlate'
  · rintro ⟨first, hrecord, hkey, hall⟩
    have hplatform := (hall master hmem).1
    obtain ⟨stack, hstack⟩ := buildWhole_isOk.mpr
      ⟨Option.isSome_iff_exists.mpr ⟨_, hrecord⟩, hplatform⟩
    obtain ⟨early, hearly⟩ := exists_mapM_eq_ok.mpr fun member hmember =>
      (buildMember_isOk hplatform).mpr ⟨hkey, (hall member hmember).1⟩
    have hearly' : early.map shownAs =
        (orderedMembers vc).map (earlyShown settings vc masterIp master) :=
      map_of_mapM_ok hearly fun _ _ _ => shownAs_buildMember
    have hlate' := hlate stack first hstack hrecord
    rw [if_pos fun member hmember => (hall member hmember).2.1] at hlate'
    obtain ⟨late, hsplit, hshown⟩ := Option.map_eq_some_iff.mp hlate'
    have hsame : early.map shownAs = late.map shownAs := by
      rw [hearly', hshown, List.map_inj_left]
      intro member hmember
      obtain ⟨-, hid, hsame⟩ := hall member hmember
      exact (earlyShown_eq_lateShown hkey hid).mpr hsame
    refine ⟨early, stack, late, hearly, hstack, hsplit, hsame, ?_⟩
    have hids := congrArg (List.map Prod.fst) (hsame.symm.trans hearly')
    rw [List.map_map, List.map_map] at hids
    exact hids

/-- When a stack is the same split early and late: the key of the index leaves the names alone, no
member is without one, and where the key is that of the ids or of the master's flag, the indexes
happen to stand for the ids, or to lead to the name of the master. -/
structure SameEitherWay (settings : StackSettings) (vc : Json) (master : Member) : Prop where
  key : settings.indexKey ≠ "name"
  named : ∀ member ∈ orderedMembers vc, nameOf member.1 ≠ ""
  platforms : ∀ member ∈ orderedMembers vc, TextPlatform member.1
  ids : settings.indexKey = "id" → ∀ member ∈ orderedMembers vc,
    memberIndex (nameOf member.1) settings ≠ 0 ∧
      pyStr (field member.1 "id") = toString (memberIndex (nameOf member.1) settings)
  flags : settings.indexKey = "is_master" → ∃ first, (orderedMembers vc).find?
    (fun member => memberIndex (nameOf member.1) settings ≠ 0) = some first ∧
      nameOf master.1 = nameOf first.1

theorem recordId_eq : recordId settings master member =
    if settings.indexKey = "id" then .int (memberIndex (nameOf member.1) settings)
    else field member.1 "id" := by
  rw [recordId, get?_indexedRecord]
  by_cases h : settings.indexKey = "id"
  · rw [if_pos h.symm, if_pos h]
    rfl
  · rw [if_neg (Ne.symm h), if_neg h]
    rfl

theorem masterRecordOf_eq (hmem : master ∈ orderedMembers vc)
    (hkey : settings.indexKey ≠ "is_master") :
    masterRecordOf ((orderedMembers vc).map (indexedRecord settings master)) =
      some (indexedRecord settings master master) := by
  have hflag : (fun member : Member => (((indexedRecord settings master member).get?
      "is_master").getD .null).truthy) = fun member => decide (member.2 = master.2) := by
    funext member
    rw [get?_indexedRecord, if_neg (Ne.symm hkey), get?_memberRecord_isMaster]
    rfl
  rw [masterRecordOf_map, hflag]
  cases hfound : (orderedMembers vc).find? fun member => decide (member.2 = master.2) with
  | none => exact absurd (List.find?_eq_none.mp hfound master hmem) (by simp)
  | some found =>
    have hplace : found.2 = master.2 := by simpa using List.find?_some hfound
    rw [Option.map_some, eq_of_place (List.mem_of_find?_eq_some hfound) hmem hplace]

theorem get?_name (hkey : settings.indexKey ≠ "name") :
    (indexedRecord settings master member).get? "name" = some (.str (nameOf member.1)) := by
  rw [get?_indexedRecord, if_neg (Ne.symm hkey), get?_memberRecord_name]

theorem masterRecordOf_isMaster (hkey : settings.indexKey = "is_master") :
    masterRecordOf ((orderedMembers vc).map (indexedRecord settings master)) =
      ((orderedMembers vc).find? fun member => memberIndex (nameOf member.1) settings ≠ 0).map
        (indexedRecord settings master) := by
  have hflag : (fun member : Member => (((indexedRecord settings master member).get?
      "is_master").getD .null).truthy) =
        fun member => decide (memberIndex (nameOf member.1) settings ≠ 0) := by
    funext member
    rw [get?_indexedRecord, if_pos hkey.symm]
    rfl
  rw [masterRecordOf_map, hflag]

/-- A stack that can be reached, and whose members have ids, splits alike exactly then. -/
theorem splitsAlike_iff (settings : StackSettings) (sourceId nodeId : String) (vc : Json)
    {master : Member} (hmaster : pickMaster (orderedMembers vc) = some master)
    (hip : (addressOf master.1).isSome = true)
    (hids : ∀ member ∈ orderedMembers vc, (field member.1 "id").truthy = true) :
    SplitsAlike settings sourceId nodeId vc ↔ SameEitherWay settings vc master := by
  obtain ⟨masterIp, hip⟩ := Option.isSome_iff_exists.mp hip
  have hmem := pickMaster_mem hmaster
  rw [splitsAlike_iff_members hmaster hip]
  constructor
  · rintro ⟨first, hrecord, hkey, hall⟩
    constructor
    · exact hkey
    · exact fun member hmember => (hall member hmember).2.2.2.1
    · exact fun member hmember => (hall member hmember).1
    · intro hid member hmember
      obtain ⟨-, htrue, htext, -⟩ := hall member hmember
      rw [recordId_eq, if_pos hid] at htrue htext
      exact ⟨by simpa [Json.truthy] using htrue, htext⟩
    · intro hflag
      rw [masterRecordOf_isMaster hflag] at hrecord
      obtain ⟨found, hfound, hsame⟩ := Option.map_eq_some_iff.mp hrecord
      have hnames := congrArg (·.get? "name") hsame
      simp only [get?_name hkey, Option.some.injEq, Json.str.injEq] at hnames
      exact ⟨found, hfound, (hall master hmem).2.2.2.2.trans hnames.symm⟩
  · intro h
    have hfirst : ∃ first, masterRecordOf ((orderedMembers vc).map
        (indexedRecord settings master)) = some (indexedRecord settings master first) ∧
          nameOf master.1 = nameOf first.1 := by
      by_cases hflag : settings.indexKey = "is_master"
      · obtain ⟨first, hfound, hname⟩ := h.flags hflag
        exact ⟨first, by rw [masterRecordOf_isMaster hflag, hfound, Option.map_some], hname⟩
      · exact ⟨master, masterRecordOf_eq hmem hflag, rfl⟩
    obtain ⟨first, hrecord, hname⟩ := hfirst
    refine ⟨first, hrecord, h.key, fun member hmember => ?_⟩
    rw [recordId_eq]
    by_cases hid : settings.indexKey = "id"
    · obtain ⟨hne, htext⟩ := h.ids hid member hmember
      rw [if_pos hid]
      exact ⟨h.platforms member hmember, by simpa [Json.truthy] using hne, htext,
        h.named member hmember, hname⟩
    · rw [if_neg hid]
      exact ⟨h.platforms member hmember, hids member hmember, rfl, h.named member hmember, hname⟩

/-- `:(\d+)` -/
def markerPattern : Pattern where
  groups := 1
  search text := text.toList.tails.findSome? fun rest =>
    let digits := (rest.drop 1).takeWhile isDecimal
    if rest.head? = some ':' ∧ digits ≠ [] then
      some ⟨fun group => some (String.ofList (if group = 0 then ':' :: digits else digits))⟩
    else none

def firstSwitch : Json := .obj [("id", .str "u-1"), ("name", .str "lab"), ("vc_position", .int 1),
  ("primary_ip4", .obj [("address", .str "10.0.0.1/24")]),
  ("vc_master_for", .obj [("id", .str "vc-1")])]

def secondSwitch : Json :=
  .obj [("id", .str "u-2"), ("name", .str "lab:2"), ("vc_position", .int 2)]

def twoSwitches : Json := .obj [
  ("id", .str "vc-1"), ("name", .str "lab"), ("members", .arr [firstSwitch, secondSwitch])]

def plainSettings : StackSettings where
  nameFilter := ""
  nameMatch := "exact"
  nameFilterRegex := none
  splitMembers := false
  indexRegex := markerPattern
  indexOffset := -1
  indexDefault := 0
  attributeBag := "virtual_chassis"
  indexKey := "stack_index"

theorem orderedMembers_twoSwitches :
    orderedMembers twoSwitches = [(firstSwitch, 0), (secondSwitch, 1)] := by
  have hsorted : [firstSwitch, secondSwitch].Pairwise fun a b => comesBefore a b = true := by
    simp only [List.pairwise_pair]
    decide +kernel
  change ([firstSwitch, secondSwitch].mergeSort comesBefore).zipIdx = _
  rw [List.mergeSort_of_pairwise hsorted]
  rfl

theorem pickMaster_twoSwitches :
    pickMaster (orderedMembers twoSwitches) = some (firstSwitch, 0) := by
  rw [orderedMembers_twoSwitches]
  rfl

theorem truthy_twoSwitches :
    ∀ member ∈ orderedMembers twoSwitches, (field member.1 "id").truthy = true := by
  rw [orderedMembers_twoSwitches]
  intro member hmember
  rcases List.mem_pair.mp hmember with rfl | rfl
  · rfl
  · rfl

theorem twoSwitches_alike :
    SplitsAlike plainSettings "source" "node" twoSwitches ↔
      SameEitherWay plainSettings twoSwitches (firstSwitch, 0) :=
  splitsAlike_iff plainSettings "source" "node" twoSwitches pickMaster_twoSwitches rfl
    truthy_twoSwitches

def idConfig : Dict Json := .ofPairs [("index_key", .str "id"), ("index_default", .int 7)]

theorem twoSwitches_shadowed :
    (∃ settings, parseSettings (fun _ => .ok markerPattern) idConfig = .ok settings ∧
      ¬ SplitsAlike settings "source" "node" twoSwitches) ∧
    pickMaster (orderedMembers twoSwitches) = some (firstSwitch, 0) ∧
    (addressOf firstSwitch).isSome = true ∧
    ∀ member ∈ orderedMembers twoSwitches, (field member.1 "id").truthy = true := by
  have hip : addressOf firstSwitch = some "10.0.0.1/24" := rfl
  refine ⟨?_, pickMaster_twoSwitches, rfl, truthy_twoSwitches⟩
  have hsettings : (parseSettings (fun _ => .ok markerPattern) idConfig).toOption.map
      (fun settings => (settings.indexKey, memberIndex "lab" settings)) = some ("id", 7) := by
    decide +kernel
  obtain ⟨settings, hparse, hindex⟩ := Option.map_eq_some_iff.mp hsettings
  obtain ⟨hkey, hseven⟩ := Prod.mk.inj hindex
  refine ⟨settings, toOption_eq_some.mp hparse, ?_⟩
  rw [splitsAlike_iff_members pickMaster_twoSwitches hip]
  rintro ⟨first, -, -, hall⟩
  have htext := (hall (firstSwitch, 0) (pickMaster_mem pickMaster_twoSwitches)).2.2.1
  have hname : nameOf firstSwitch = "lab" := rfl
  rw [recordId_eq, if_pos hkey, hname, hseven] at htext
  exact absurd htext (by decide +kernel)

end Alike

end Manus.VirtualChassis
