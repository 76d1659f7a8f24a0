import Manus.Aci.CoveredBy

/-! # Every subnet is compared once

A run over subnets and prefixes with canonical texts puts each network of a namespace in
exactly one of the two lists of the report, and in the list of matches exactly when the
namespace has it.
-/

namespace Manus.AciSubnets

variable {nautobot : List NautobotPrefix} {space : String} {fromVrf : Bool}

section Loop

def HasKey (space : String) (fromVrf : Bool) (subnet : AciSubnet) (key : Key) : Prop :=
  targetSpace space fromVrf subnet = some key.1 ∧ subnet.network = key.2

structure Collected (nautobot : List NautobotPrefix) (space : String) (fromVrf : Bool)
    (seen : List AciSubnet) (c : Comparison) : Prop where
  matched : ∀ key, key ∈ c.matched.map Prod.fst ↔
    (∃ subnet ∈ seen, HasKey space fromVrf subnet key) ∧ present nautobot key = true
  missing : ∀ key, key ∈ c.missing.map Prod.fst ↔
    (∃ subnet ∈ seen, HasKey space fromVrf subnet key) ∧ present nautobot key = false
  matchedOnce : (c.matched.map Prod.fst).Nodup
  missingOnce : (c.missing.map Prod.fst).Nodup
  matchedKey : ∀ entry ∈ c.matched, entry.1 = (entry.2.space, entry.2.network)
  missingKey : ∀ entry ∈ c.missing, entry.1 = (entry.2.1.space, entry.2.1.network)

theorem Collected.nil (nautobot : List NautobotPrefix) (space : String) (fromVrf : Bool) :
    Collected nautobot space fromVrf [] {} :=
  ⟨by simp, by simp, List.nodup_nil, List.nodup_nil, nofun, nofun⟩

theorem hasKey_unique {subnet : AciSubnet} {key key' : Key} (h : HasKey space fromVrf subnet key)
    (h' : HasKey space fromVrf subnet key') : key' = key := by
  apply Prod.ext
  · exact Option.some.inj (h'.1.symm.trans h.1)
  · exact h'.2.symm.trans h.2

variable {seen : List AciSubnet} {c : Comparison} {subnet : AciSubnet}

theorem exists_hasKey_concat {key : Key} :
    (∃ s ∈ seen ++ [subnet], HasKey space fromVrf s key) ↔
      (∃ s ∈ seen, HasKey space fromVrf s key) ∨ HasKey space fromVrf subnet key := by
  simp [or_and_right, exists_or]

theorem Collected.has_iff (h : Collected nautobot space fromVrf seen c) (key : Key) :
    c.has key = true ↔ ∃ s ∈ seen, HasKey space fromVrf s key := by
  simp only [Comparison.has, Bool.or_eq_true, decide_eq_true_eq, h.matched, h.missing]
  cases present nautobot key <;> simp

theorem Collected.skip (h : Collected nautobot space fromVrf seen c)
    (hseen : ∀ key, HasKey space fromVrf subnet key → ∃ s ∈ seen, HasKey space fromVrf s key) :
    Collected nautobot space fromVrf (seen ++ [subnet]) c := by
  have hsame : ∀ key, (∃ s ∈ seen ++ [subnet], HasKey space fromVrf s key) ↔
      ∃ s ∈ seen, HasKey space fromVrf s key := by
    intro key
    rw [exists_hasKey_concat]
    exact ⟨fun hkey => hkey.elim id (hseen key), Or.inl⟩
  constructor
  · intro key
    rw [hsame, h.matched]
  · intro key
    rw [hsame, h.missing]
  · exact h.matchedOnce
  · exact h.missingOnce
  · exact h.matchedKey
  · exact h.missingKey

theorem Collected.congr {c' : Comparison} (h : Collected nautobot space fromVrf seen c)
    (hmatched : c'.matched = c.matched) (hmissing : c'.missing = c.missing) :
    Collected nautobot space fromVrf seen c' := by
  constructor
  · rw [hmatched]
    exact h.matched
  · rw [hmissing]
    exact h.missing
  · rw [hmatched]
    exact h.matchedOnce
  · rw [hmissing]
    exact h.missingOnce
  · rw [hmatched]
    exact h.matchedKey
  · rw [hmissing]
    exact h.missingKey

theorem mem_concat_iff {key key' : Key} {P : Key → Prop} {b : Bool} {keys : List Key}
    (hkeys : ∀ k, k ∈ keys ↔ P k ∧ present nautobot k = b) (hb : present nautobot key = b) :
    key' ∈ keys ++ [key] ↔ (P key' ∨ key' = key) ∧ present nautobot key' = b := by
  rw [List.mem_append, hkeys, List.mem_singleton]
  constructor
  · rintro (⟨hseen, hpresent⟩ | rfl)
    · exact ⟨.inl hseen, hpresent⟩
    · exact ⟨.inr rfl, hb⟩
  · rintro ⟨hseen | rfl, hpresent⟩
    · exact .inl ⟨hseen, hpresent⟩
    · exact .inr rfl

theorem mem_iff_of_absent {key key' : Key} {P : Key → Prop} {b : Bool} {keys : List Key}
    (hkeys : ∀ k, k ∈ keys ↔ P k ∧ present nautobot k = b) (hb : present nautobot key ≠ b) :
    key' ∈ keys ↔ (P key' ∨ key' = key) ∧ present nautobot key' = b := by
  rw [hkeys]
  constructor
  · exact fun ⟨hseen, hpresent⟩ => ⟨.inl hseen, hpresent⟩
  · rintro ⟨hseen | rfl, hpresent⟩
    · exact ⟨hseen, hpresent⟩
    · exact absurd hpresent hb

theorem nodup_concat {key : Key} {keys : List Key} (h : keys.Nodup) (hkey : key ∉ keys) :
    (keys ++ [key]).Nodup := by
  rw [List.nodup_append]
  refine ⟨h, List.nodup_singleton key, fun k hk k' hk' => ?_⟩
  rw [List.mem_singleton.mp hk']
  rintro rfl
  exact hkey hk

/-- One round keeps the invariant, and does not raise for a canonical network. -/
theorem Collected.compareOne (h : Collected nautobot space fromVrf seen c)
    (hcanonical : Canonical subnet.network) :
    ∃ c', compareOne nautobot space fromVrf c subnet = some c' ∧
      Collected nautobot space fromVrf (seen ++ [subnet]) c' := by
  unfold AciSubnets.compareOne
  cases htarget : targetSpace space fromVrf subnet with
  | none =>
    refine ⟨_, rfl, Collected.congr (h.skip ?_) rfl rfl⟩
    rintro key ⟨hkey, -⟩
    rw [htarget] at hkey
    cases hkey
  | some target =>
    have hown : HasKey space fromVrf subnet (target, subnet.network) := ⟨htarget, rfl⟩
    have hkeys : ∀ key, (∃ s ∈ seen ++ [subnet], HasKey space fromVrf s key) ↔
        (∃ s ∈ seen, HasKey space fromVrf s key) ∨ key = (target, subnet.network) := by
      intro key
      rw [exists_hasKey_concat]
      apply or_congr_right
      constructor
      · exact hasKey_unique hown
      · rintro rfl
        exact hown
    dsimp only
    split
    · next hhas =>
      refine ⟨_, rfl, Collected.congr (h.skip fun key hkey => ?_) rfl rfl⟩
      rw [hasKey_unique hown hkey]
      exact (h.has_iff _).mp hhas
    · next hhas =>
      rw [h.has_iff] at hhas
      split
      · next hpresent =>
        refine ⟨_, rfl, ⟨?_, ?_, ?_, h.missingOnce, ?_, h.missingKey⟩⟩
        · intro key
          rw [hkeys, List.map_append]
          exact mem_concat_iff h.matched hpresent
        · intro key
          rw [hkeys]
          exact mem_iff_of_absent h.missing (by simp [hpresent])
        · rw [List.map_append]
          apply nodup_concat h.matchedOnce
          rw [h.matched]
          exact fun hkey => hhas hkey.1
        · intro entry hentry
          rcases List.mem_append.mp hentry with hentry | hentry
          · exact h.matchedKey entry hentry
          · rw [List.mem_singleton.mp hentry]
            rfl
      · next hpresent =>
        rw [Bool.not_eq_true] at hpresent
        obtain ⟨network, hnetwork, -⟩ := hcanonical
        obtain ⟨cover, hcover⟩ := covering_returns nautobot (some target) hnetwork
        rw [hcover]
        refine ⟨_, rfl, ⟨?_, ?_, h.matchedOnce, ?_, h.matchedKey, ?_⟩⟩
        · intro key
          rw [hkeys]
          exact mem_iff_of_absent h.matched (by simp [hpresent])
        · intro key
          rw [hkeys, List.map_append]
          exact mem_concat_iff h.missing hpresent
        · rw [List.map_append]
          apply nodup_concat h.missingOnce
          rw [h.missing]
          exact fun hkey => hhas hkey.1
        · intro entry hentry
          rcases List.mem_append.mp hentry with hentry | hentry
          · exact h.missingKey entry hentry
          · rw [List.mem_singleton.mp hentry]
            rfl

theorem Collected.foldlM {rest : List AciSubnet} (h : Collected nautobot space fromVrf seen c)
    (hcanonical : ∀ subnet ∈ rest, Canonical subnet.network) :
    ∃ c', rest.foldlM (AciSubnets.compareOne nautobot space fromVrf) c = some c' ∧
      Collected nautobot space fromVrf (seen ++ rest) c' := by
  induction rest generalizing seen c with
  | nil =>
    rw [List.append_nil]
    exact ⟨c, rfl, h⟩
  | cons subnet rest ih =>
    obtain ⟨c', hstep, hc'⟩ := h.compareOne (hcanonical subnet List.mem_cons_self)
    obtain ⟨c'', hrun, hc''⟩ := ih hc' fun s hs => hcanonical s (List.mem_cons_of_mem _ hs)
    rw [List.append_assoc] at hc''
    exact ⟨c'', by rw [List.foldlM_cons, hstep]; exact hrun, hc''⟩

end Loop

section Report

def InNamespace (nautobot : List NautobotPrefix) (key : Key) : Prop :=
  ∃ network, ipNetwork key.2.toList = some network ∧ Holds nautobot (some key.1) network

def Item.key (i : Item) : Key := (i.space, i.network)

/-- The report has every network of a namespace once, in the list it belongs to. -/
structure Splits (nautobot : List NautobotPrefix) (space : String) (fromVrf : Bool)
    (aci : List AciSubnet) (report : Report) : Prop where
  matched : ∀ key, key ∈ report.matched.map Item.key ↔
    (∃ subnet ∈ aci, HasKey space fromVrf subnet key) ∧ InNamespace nautobot key
  missing : ∀ key, key ∈ report.missingInNautobot.map (fun entry => entry.1.key) ↔
    (∃ subnet ∈ aci, HasKey space fromVrf subnet key) ∧ ¬ InNamespace nautobot key
  matchedOnce : (report.matched.map Item.key).Nodup
  missingOnce : (report.missingInNautobot.map fun entry => entry.1.key).Nodup

theorem present_iff {key : Key} (hnautobot : ∀ p ∈ nautobot, Canonical p.network)
    (hkey : Canonical key.2) : present nautobot key = true ↔ InNamespace nautobot key := by
  obtain ⟨network, hnetwork, htext⟩ := hkey
  simp only [present, decide_eq_true_eq, List.mem_map, Prod.mk.injEq]
  constructor
  · rintro ⟨p, hp, hspace, hsame⟩
    exact ⟨network, hnetwork, p, hp, hspace, by rw [hsame, hnetwork]⟩
  · rintro ⟨network', hnetwork', p, hp, hspace, hread⟩
    obtain ⟨network'', hnetwork'', htext'⟩ := hnautobot p hp
    rw [hnetwork] at hnetwork'
    rw [hread] at hnetwork''
    cases hnetwork'
    cases hnetwork''
    exact ⟨p, hp, hspace, htext'.symm.trans htext⟩

theorem collectMissing_returns (aciKeys : List Key) (scopes : List IpNetwork) (space : String)
    (fromVrf : Bool) (hnautobot : ∀ p ∈ nautobot, Canonical p.network) :
    ∃ found, collectMissing aciKeys scopes space fromVrf nautobot = some found := by
  induction nautobot with
  | nil => exact ⟨[], rfl⟩
  | cons candidate rest ih =>
    obtain ⟨network, hnetwork, -⟩ := hnautobot candidate List.mem_cons_self
    obtain ⟨found, hfound⟩ := ih fun p hp => hnautobot p (List.mem_cons_of_mem _ hp)
    have hreported : ∃ reported,
        isMissingInAci aciKeys scopes space fromVrf candidate = some reported := by
      unfold isMissingInAci
      rw [hnetwork]
      split
      · exact ⟨false, rfl⟩
      split
      · exact ⟨false, rfl⟩
      · exact ⟨_, rfl⟩
    obtain ⟨reported, hreported⟩ := hreported
    rw [collectMissing, hreported, hfound]
    exact ⟨_, rfl⟩

theorem missingInAci_returns (aciKeys : List Key) (scopes : List IpNetwork) (space : String)
    (fromVrf : Bool) (hnautobot : ∀ p ∈ nautobot, Canonical p.network) :
    ∃ missing, missingInAci nautobot aciKeys scopes space fromVrf = some missing := by
  unfold missingInAci
  split
  · exact ⟨none, rfl⟩
  · have hsorted : ∀ p ∈ sortPrefixes nautobot, Canonical p.network := by
      intro p hp
      exact hnautobot p (List.mem_mergeSort.mp hp)
    obtain ⟨found, hfound⟩ := collectMissing_returns aciKeys scopes space fromVrf hsorted
    rw [hfound]
    exact ⟨_, rfl⟩

/-- The report splits the subnets whatever their order. -/
theorem compareSubnets_splits {aci : List AciSubnet} {scopePrefixes : List String}
    {scopes : List IpNetwork} (hnautobot : ∀ p ∈ nautobot, Canonical p.network)
    (haci : ∀ subnet ∈ aci, Canonical subnet.network)
    (hscopes : parseScopePrefixes scopePrefixes = some scopes) :
    ∃ report, compareSubnets aci nautobot space fromVrf scopePrefixes = some report ∧
      Splits nautobot space fromVrf aci report := by
  have hmem : ∀ subnet, subnet ∈ sortSubnets aci ↔ subnet ∈ aci := fun _ => List.mem_mergeSort
  have hsorted : ∀ subnet ∈ sortSubnets aci, Canonical subnet.network :=
    fun subnet hsubnet => haci subnet ((hmem subnet).mp hsubnet)
  obtain ⟨c, hrun, hcollected⟩ := (Collected.nil nautobot space fromVrf).foldlM hsorted
  obtain ⟨missing, hmissing⟩ :=
    missingInAci_returns (c.owners.map Prod.fst) scopes space fromVrf hnautobot
  have hmatchedKeys : (c.matched.map Prod.snd).map Item.key = c.matched.map Prod.fst := by
    rw [List.map_map]
    exact List.map_congr_left fun entry hentry => (hcollected.matchedKey entry hentry).symm
  have hmissingKeys : (c.missing.map Prod.snd).map (fun entry => entry.1.key) =
      c.missing.map Prod.fst := by
    rw [List.map_map]
    exact List.map_congr_left fun entry hentry => (hcollected.missingKey entry hentry).symm
  have hkeys : ∀ key, (∃ subnet ∈ [] ++ sortSubnets aci, HasKey space fromVrf subnet key) ↔
      ∃ subnet ∈ aci, HasKey space fromVrf subnet key := by
    simp [hmem]
  have hpresent : ∀ key, (∃ subnet ∈ aci, HasKey space fromVrf subnet key) →
      (present nautobot key = true ↔ InNamespace nautobot key) := by
    rintro key ⟨subnet, hsubnet, -, hnetwork⟩
    apply present_iff hnautobot
    rw [← hnetwork]
    exact haci subnet hsubnet
  have hall : compareAll nautobot space fromVrf aci = some c := hrun
  rw [compareSubnets, hscopes, Option.bind_eq_bind, Option.bind_some, hall, Option.bind_eq_bind,
    Option.bind_some, Option.bind_eq_bind, hmissing]
  refine ⟨_, rfl, ⟨?_, ?_, ?_, ?_⟩⟩
  · intro key
    rw [hmatchedKeys, hcollected.matched, hkeys]
    exact and_congr_right (hpresent key)
  · intro key
    rw [hmissingKeys, hcollected.missing, hkeys]
    apply and_congr_right
    intro hkey
    rw [← hpresent key hkey, Bool.not_eq_true]
  · rw [hmatchedKeys]
    exact hcollected.matchedOnce
  · rw [hmissingKeys]
    exact hcollected.missingOnce

theorem canonical_prefixOf {ν : Type} {row : JsonValue ν} {p : NautobotPrefix}
    (h : prefixOf row = some p) : Canonical p.network := by
  unfold prefixOf at h
  split at h
  · split at h
    · obtain ⟨network, hnetwork, rfl⟩ := Option.map_eq_some_iff.mp h
      exact ⟨network, ipNetwork_text (readable_ipNetwork hnetwork), rfl⟩
    · cases h
  · cases h

/-- The lookup agrees with a scan of the prefixes exactly if the longest cover, where there is one,
is named by its number; and the report splits the subnets in any case. -/
theorem compare_agrees_iff {nautobot : List NautobotPrefix}
    (hnautobot : ∀ p ∈ nautobot, Canonical p.network) :
    (∀ (text : String) (target : IpNetwork) (space : Option String),
      ipNetwork text.toList = some target →
      ((∃ result, covering (coverIndex nautobot) space text = some result ∧
          CoveredRight nautobot space target result) ↔
        ((∃ network, LongestCover nautobot space target network) →
          ∃ network, LongestCover nautobot space target network ∧ NamedByNumber network))) ∧
    ∀ (aci : List AciSubnet) (space : String) (fromVrf : Bool) (scopePrefixes : List String)
      (scopes : List IpNetwork), (∀ subnet ∈ aci, Canonical subnet.network) →
      parseScopePrefixes scopePrefixes = some scopes →
      ∃ report, compareSubnets aci nautobot space fromVrf scopePrefixes = some report ∧
        Splits nautobot space fromVrf aci report := by
  constructor
  · intro text target space htarget
    exact covering_right_iff htarget
  · intro aci space fromVrf scopePrefixes scopes haci hscopes
    exact compareSubnets_splits hnautobot haci hscopes

def containerRow : JsonValue ℕ :=
  .obj [("prefix", .str "10.0.0.0/8"), ("type", .str "container"),
    ("namespace", .obj [("name", .str "Global")])]

def gatewaySubnet : AciSubnet where
  network := "10.1.1.0/24"
  gateway := "10.1.1.1"
  tenant := "prod"
  bridgeDomain := some "web"
  vrf := some "main"
  owner := .bd
  epg := none
  scope := ["public"]

theorem containerRow_compared :
    ∃ report, compareSubnets [gatewaySubnet] ([containerRow].filterMap prefixOf) "Global" false
        ["10.0.0.0/8"] = some report ∧
      Splits ([containerRow].filterMap prefixOf) "Global" false [gatewaySubnet] report := by
  have hcanonical : ∀ p ∈ [containerRow].filterMap prefixOf, Canonical p.network := by
    intro p hp
    obtain ⟨row, -, hrow⟩ := List.mem_filterMap.mp hp
    exact canonical_prefixOf hrow
  have hgateway : Canonical gatewaySubnet.network :=
    ⟨⟨.v4, 167837952, 24, none, by decide, by decide, by decide⟩, by decide +kernel,
      by decide +kernel⟩
  have hscope : parseScopePrefixes ["10.0.0.0/8"] =
      some [⟨.v4, 167772160, 8, none, by decide, by decide, by decide⟩] := by
    decide +kernel
  apply (compare_agrees_iff hcanonical).2 _ _ _ _ _ ?_ hscope
  intro subnet hsubnet
  rw [List.mem_singleton.mp hsubnet]
  exact hgateway

def firstPrefix : NautobotPrefix where
  network := "::/16"
  space := some "Global"
  status := none
  type := none

/-- It is named as an IPv4 network. -/
theorem firstPrefix_named :
    ¬ ∀ (nautobot : List NautobotPrefix) (text : String) (target : IpNetwork)
      (space : Option String), (∀ p ∈ nautobot, Canonical p.network) →
      ipNetwork text.toList = some target → target.text = text →
      ∃ result, covering (coverIndex nautobot) space text = some result ∧
        CoveredRight nautobot space target result := by
  intro h
  have hcanonical : Canonical firstPrefix.network :=
    ⟨⟨.v6, 0, 16, none, by decide, by decide, by decide⟩, by decide +kernel, by decide +kernel⟩
  obtain ⟨result, hresult, hright⟩ := h [firstPrefix] "::/64"
    ⟨.v6, 0, 64, none, by decide, by decide, by decide⟩ (some "Global")
    (by intro p hp; rw [List.mem_singleton.mp hp]; exact hcanonical) (by decide +kernel)
    (by decide +kernel)
  have hnamed : covering (coverIndex [firstPrefix]) (some "Global") "::/64" =
      some (some "0.0.0.0/16") := by
    decide +kernel
  rw [hnamed] at hresult
  cases hresult
  rcases hright with ⟨hnone, -⟩ | ⟨network, hlongest, htext⟩
  · cases hnone
  · obtain ⟨p, hp, -, hnetwork⟩ := hlongest.holds
    rw [List.mem_singleton.mp hp] at hnetwork
    have hread : (ipNetwork firstPrefix.network.toList).map IpNetwork.text = some "::/16" := by
      decide +kernel
    rw [hnetwork, Option.map_some, ← Option.some.inj htext] at hread
    exact absurd hread (by decide)

end Report

end Manus.AciSubnets
