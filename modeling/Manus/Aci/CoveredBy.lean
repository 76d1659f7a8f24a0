import Manus.Aci.CompareSubnets

/-! # The smallest prefix that contains a subnet

The lookup by prefix length finds what a scan of all prefixes finds: the longest larger network
of the namespace that contains the subnet. Its text is made from a number and a length, and that
is read as an IPv4 network where both fit, so the short networks at the start of the IPv6 space
are named wrongly, and so is a network with a scope.
-/

namespace Manus.AciSubnets

variable {nautobot : List NautobotPrefix} {space : Option String} {target network : IpNetwork}

section Networks

def Canonical (text : String) : Prop :=
  ∃ network, ipNetwork text.toList = some network ∧ network.text = text

/-- A strictly larger network of the same version, with all addresses of the other one. -/
def Covers (network target : IpNetwork) : Prop :=
  network.version = target.version ∧ network.prefixLength < target.prefixLength ∧
    ∀ address, target.contains address = true → network.contains address = true

def masked (target : IpNetwork) (length : ℕ) : ℕ :=
  let size := 2 ^ (target.version.bits - length)
  target.address / size * size

theorem contains_iff {address : IpAddress} : network.contains address = true ↔
    address.version = network.version ∧
      address.value / 2 ^ (network.version.bits - network.prefixLength) *
        2 ^ (network.version.bits - network.prefixLength) = network.address := by
  simp [IpNetwork.contains]

theorem contains_first (target : IpNetwork) :
    target.contains ⟨target.version, target.address, none, target.bound⟩ = true :=
  contains_iff.mpr ⟨rfl, Nat.div_mul_cancel target.aligned⟩

theorem div_pow_eq_of_div_pow_eq {m n a b : ℕ} (h : m ≤ n) (heq : a / 2 ^ m = b / 2 ^ m) :
    a / 2 ^ n = b / 2 ^ n := by
  obtain ⟨k, rfl⟩ := Nat.exists_eq_add_of_le h
  rw [Nat.pow_add, ← Nat.div_div_eq_div_mul, ← Nat.div_div_eq_div_mul, heq]

theorem covers_iff : Covers network target ↔
    network.version = target.version ∧ network.prefixLength < target.prefixLength ∧
      masked target network.prefixLength = network.address := by
  constructor
  · rintro ⟨hversion, hshorter, hall⟩
    obtain ⟨-, hfirst⟩ := contains_iff.mp (hall _ (contains_first target))
    rw [hversion] at hfirst
    exact ⟨hversion, hshorter, hfirst⟩
  · rintro ⟨hversion, hshorter, hmasked⟩
    refine ⟨hversion, hshorter, fun address haddress => contains_iff.mpr ?_⟩
    obtain ⟨hsame, hinside⟩ := contains_iff.mp haddress
    refine ⟨hsame.trans hversion.symm, ?_⟩
    have hdiv : address.value / 2 ^ (target.version.bits - target.prefixLength) =
        target.address / 2 ^ (target.version.bits - target.prefixLength) := by
      rw [← hinside, Nat.mul_div_cancel _ (Nat.two_pow_pos _)]
    rw [hversion, ← hmasked, masked, div_pow_eq_of_div_pow_eq (by omega) hdiv]

end Networks

section Index

def Holds (nautobot : List NautobotPrefix) (space : Option String) (network : IpNetwork) : Prop :=
  ∃ p ∈ nautobot, p.space = space ∧ ipNetwork p.network.toList = some network

structure LongestCover (nautobot : List NautobotPrefix) (space : Option String)
    (target network : IpNetwork) : Prop where
  holds : Holds nautobot space network
  covers : Covers network target
  longest : ∀ other, Holds nautobot space other → Covers other target →
    other.prefixLength ≤ network.prefixLength

def CoveredRight (nautobot : List NautobotPrefix) (space : Option String) (target : IpNetwork)
    (result : Option String) : Prop :=
  (result = none ∧ ∀ network, Holds nautobot space network → ¬ Covers network target) ∨
    ∃ network, LongestCover nautobot space target network ∧ result = some network.text

theorem mem_coverIndex {version : IpVersion} {length address : ℕ} :
    ⟨space, version, length, address⟩ ∈ coverIndex nautobot ↔
      ∃ network, Holds nautobot space network ∧ network.version = version ∧
        network.prefixLength = length ∧ network.address = address := by
  simp only [coverIndex, List.mem_filterMap, coverEntry, Option.map_eq_some_iff]
  constructor
  · rintro ⟨p, hp, network, hnetwork, hentry⟩
    cases hentry
    exact ⟨network, ⟨p, hp, rfl, hnetwork⟩, rfl, rfl, rfl⟩
  · rintro ⟨network, ⟨p, hp, rfl, hnetwork⟩, rfl, rfl, rfl⟩
    exact ⟨p, hp, network, hnetwork, rfl⟩

def Found (nautobot : List NautobotPrefix) (space : Option String) (target : IpNetwork)
    (length : ℕ) : Prop :=
  ⟨space, target.version, length, masked target length⟩ ∈ coverIndex nautobot

theorem found_iff {length : ℕ} (h : length < target.prefixLength) :
    Found nautobot space target length ↔
      ∃ network, Holds nautobot space network ∧ Covers network target ∧
        network.prefixLength = length := by
  rw [Found, mem_coverIndex]
  constructor
  · rintro ⟨network, hholds, hversion, rfl, haddress⟩
    exact ⟨network, hholds, covers_iff.mpr ⟨hversion, h, haddress.symm⟩, rfl⟩
  · rintro ⟨network, hholds, hcovers, rfl⟩
    obtain ⟨hversion, -, haddress⟩ := covers_iff.mp hcovers
    exact ⟨network, hholds, hversion, rfl, haddress.symm⟩

theorem coveringBelow_of_found {n : ℕ} (h : Found nautobot space target n) :
    coveringBelow (coverIndex nautobot) space target (n + 1) =
      (ipNetworkPair (masked target n) n).map fun network => some network.text := by
  unfold Found masked at h
  rw [← Nat.shiftLeft_eq, ← Nat.shiftRight_eq_div_pow] at h
  rw [masked, ← Nat.shiftLeft_eq, ← Nat.shiftRight_eq_div_pow]
  exact if_pos h

theorem coveringBelow_of_not_found {n : ℕ} (h : ¬ Found nautobot space target n) :
    coveringBelow (coverIndex nautobot) space target (n + 1) =
      coveringBelow (coverIndex nautobot) space target n := by
  unfold Found masked at h
  rw [← Nat.shiftLeft_eq, ← Nat.shiftRight_eq_div_pow] at h
  exact if_neg h

theorem coveringBelow_spec (nautobot : List NautobotPrefix) (space : Option String)
    (target : IpNetwork) (n : ℕ) :
    ((∀ length < n, ¬ Found nautobot space target length) ∧
        coveringBelow (coverIndex nautobot) space target n = some none) ∨
      ∃ length < n, Found nautobot space target length ∧
        (∀ longer < n, Found nautobot space target longer → longer ≤ length) ∧
        coveringBelow (coverIndex nautobot) space target n =
          (ipNetworkPair (masked target length) length).map fun network => some network.text := by
  induction n with
  | zero => exact .inl ⟨nofun, rfl⟩
  | succ n ih =>
    by_cases hfound : Found nautobot space target n
    · right
      exact ⟨n, Nat.lt_succ_self n, hfound, fun longer h _ => by omega,
        coveringBelow_of_found hfound⟩
    · rw [coveringBelow_of_not_found hfound]
      rcases ih with ⟨hnone, hwalk⟩ | ⟨length, hlength, hthere, hlongest, hwalk⟩
      · refine .inl ⟨fun length h => ?_, hwalk⟩
        rcases Nat.lt_succ_iff_lt_or_eq.mp h with h | rfl
        · exact hnone length h
        · exact hfound
      · refine .inr ⟨length, by omega, hthere, fun longer h hlonger => ?_, hwalk⟩
        rcases Nat.lt_succ_iff_lt_or_eq.mp h with h | rfl
        · exact hlongest longer h hlonger
        · exact absurd hlonger hfound

end Index

section Texts

def NamedByNumber (network : IpNetwork) : Prop :=
  network.scope = none ∧
    ¬ (network.version = .v6 ∧ network.address = 0 ∧ network.prefixLength ≤ 32)

theorem Holds.readable (h : Holds nautobot space network) : network.Readable := by
  obtain ⟨p, -, -, hnetwork⟩ := h
  exact readable_ipNetwork hnetwork

theorem text_eq_iff {other : IpNetwork} (h : network.Readable) (hother : other.Readable) :
    other.text = network.text ↔ other = network := by
  constructor
  · intro htext
    have hread := ipNetwork_text hother
    rw [htext, ipNetwork_text h] at hread
    exact (Option.some.inj hread).symm
  · rintro rfl
    rfl

theorem readable_of_scope (h : network.scope = none) : network.Readable := by
  constructor
  · rw [h]
    exact nofun
  · rw [h]
    exact nofun

theorem address_eq_zero (hversion : network.version = .v6) (hsmall : network.address < 2 ^ 32)
    (hshort : network.prefixLength ≤ 32) : network.address = 0 := by
  by_contra hne
  have hsize := Nat.le_of_dvd (Nat.pos_of_ne_zero hne) network.aligned
  have hpow : 2 ^ 32 ≤ 2 ^ (network.version.bits - network.prefixLength) := by
    apply Nat.pow_le_pow_right (by decide)
    rw [hversion, IpVersion.bits]
    omega
  omega

/-- A text is made of every network, and it is the right one exactly for a network that is named by
its number. -/
theorem ipNetworkPair_spec (network : IpNetwork) :
    ∃ made, ipNetworkPair network.address network.prefixLength = some made ∧
      (network.Readable → (made.text = network.text ↔ NamedByNumber network)) := by
  by_cases hfits : network.address < 2 ^ 32 ∧ network.prefixLength ≤ 32
  · cases hversion : network.version with
    | v4 =>
      have haligned := network.aligned
      rw [hversion] at haligned
      refine ⟨⟨.v4, network.address, network.prefixLength, none, hfits.1, hfits.2, haligned⟩,
        ?_, ?_⟩
      · simp only [ipNetworkPair, if_pos hfits]
        exact dif_pos ⟨hfits.1, hfits.2, haligned⟩
      · intro hreadable
        have hscope : network.scope = none := by
          cases hscope : network.scope with
          | none => rfl
          | some s =>
            have hsix := (hreadable.scope s hscope).1
            rw [hversion] at hsix
            cases hsix
        obtain ⟨version, address, length, scope⟩ := network
        subst hversion hscope
        simp [NamedByNumber]
    | v6 =>
      have hzero := address_eq_zero hversion hfits.1 hfits.2
      have haligned : 2 ^ (IpVersion.v4.bits - network.prefixLength) ∣ network.address := by
        rw [hzero]
        exact Nat.dvd_zero _
      refine ⟨⟨.v4, network.address, network.prefixLength, none, hfits.1, hfits.2, haligned⟩,
        ?_, ?_⟩
      · simp only [ipNetworkPair, if_pos hfits]
        exact dif_pos ⟨hfits.1, hfits.2, haligned⟩
      · intro hreadable
        rw [text_eq_iff hreadable (readable_of_scope rfl)]
        constructor
        · intro hsame
          rw [← hsame] at hversion
          cases hversion
        · rintro ⟨-, hnot⟩
          exact absurd ⟨hversion, hzero, hfits.2⟩ hnot
  · have hversion : network.version = .v6 := by
      cases hversion : network.version with
      | v6 => rfl
      | v4 =>
        have hbound := network.bound
        have hshort := network.short
        rw [hversion] at hbound hshort
        exact absurd ⟨hbound, hshort⟩ hfits
    obtain ⟨version, address, length, scope, hbound, hshort, haligned⟩ := network
    obtain rfl : version = .v6 := hversion
    dsimp only at hfits ⊢
    refine ⟨⟨.v6, address, length, none, hbound, hshort, haligned⟩, ?_, ?_⟩
    · simp only [ipNetworkPair, if_neg hfits]
      exact dif_pos ⟨hbound, hshort, haligned⟩
    · intro hreadable
      rw [text_eq_iff hreadable (readable_of_scope rfl)]
      constructor
      · intro hsame
        cases hsame
        refine ⟨rfl, ?_⟩
        rintro ⟨-, rfl, hlength⟩
        exact hfits ⟨by decide, hlength⟩
      · rintro ⟨hscope, -⟩
        obtain rfl : scope = none := hscope
        rfl

theorem coveringBelow_result (nautobot : List NautobotPrefix) (space : Option String)
    (target : IpNetwork) :
    (coveringBelow (coverIndex nautobot) space target target.prefixLength = some none ∧
        ∀ network, Holds nautobot space network → ¬ Covers network target) ∨
      ∃ network made, LongestCover nautobot space target network ∧
        ipNetworkPair network.address network.prefixLength = some made ∧
        coveringBelow (coverIndex nautobot) space target target.prefixLength =
          some (some made.text) := by
  rcases coveringBelow_spec nautobot space target target.prefixLength with
    ⟨hnone, hwalk⟩ | ⟨length, hlength, hfound, hlongest, hwalk⟩
  · refine .inl ⟨hwalk, fun network hholds hcovers => ?_⟩
    exact hnone _ hcovers.2.1 ((found_iff hcovers.2.1).mpr ⟨network, hholds, hcovers, rfl⟩)
  · right
    obtain ⟨network, hholds, hcovers, rfl⟩ := (found_iff hlength).mp hfound
    obtain ⟨made, hmade, -⟩ := ipNetworkPair_spec network
    refine ⟨network, made, ⟨hholds, hcovers, fun other hother hinside => ?_⟩, hmade, ?_⟩
    · exact hlongest _ hinside.2.1 ((found_iff hinside.2.1).mpr ⟨other, hother, hinside, rfl⟩)
    · rw [hwalk, (covers_iff.mp hcovers).2.2, hmade]
      rfl

theorem covering_returns (nautobot : List NautobotPrefix) (space : Option String) {text : String}
    (htarget : ipNetwork text.toList = some target) :
    ∃ result, covering (coverIndex nautobot) space text = some result := by
  rw [covering, htarget, Option.bind_some]
  rcases coveringBelow_result nautobot space target with ⟨hwalk, -⟩ | ⟨_, _, -, -, hwalk⟩
  · exact ⟨_, hwalk⟩
  · exact ⟨_, hwalk⟩

theorem LongestCover.same {other : IpNetwork} (h : LongestCover nautobot space target network)
    (hother : LongestCover nautobot space target other) :
    other.address = network.address ∧ other.prefixLength = network.prefixLength := by
  have hlength : other.prefixLength = network.prefixLength :=
    Nat.le_antisymm (h.longest other hother.holds hother.covers)
      (hother.longest network h.holds h.covers)
  refine ⟨?_, hlength⟩
  rw [← (covers_iff.mp h.covers).2.2, ← (covers_iff.mp hother.covers).2.2, hlength]

/-- The lookup agrees with the scan exactly if what the scan finds is named by its number. -/
theorem covering_right_iff {text : String} (htarget : ipNetwork text.toList = some target) :
    (∃ result, covering (coverIndex nautobot) space text = some result ∧
        CoveredRight nautobot space target result) ↔
      ((∃ network, LongestCover nautobot space target network) →
        ∃ network, LongestCover nautobot space target network ∧ NamedByNumber network) := by
  rw [covering, htarget, Option.bind_some]
  rcases coveringBelow_result nautobot space target with
    ⟨hwalk, hnone⟩ | ⟨network, made, hlongest, hmade, hwalk⟩
  · constructor
    · rintro - ⟨network, hlongest⟩
      exact absurd hlongest.covers (hnone network hlongest.holds)
    · exact fun _ => ⟨none, hwalk, .inl ⟨rfl, hnone⟩⟩
  · -- the text that is made is that of a longest cover if and only if that one is named so
    have hsame : ∀ other, LongestCover nautobot space target other →
        (made.text = other.text ↔ NamedByNumber other) := by
      intro other hother
      obtain ⟨made', hmade', htext⟩ := ipNetworkPair_spec other
      rw [(hlongest.same hother).1, (hlongest.same hother).2, hmade] at hmade'
      cases hmade'
      exact htext hother.holds.readable
    constructor
    · rintro ⟨result, hresult, ⟨rfl, hnone⟩ | ⟨other, hother, rfl⟩⟩ -
      · exact absurd hlongest.covers (hnone network hlongest.holds)
      · have htext : made.text = other.text :=
          Option.some.inj (Option.some.inj (hwalk.symm.trans hresult))
        exact ⟨other, hother, (hsame other hother).mp htext⟩
    · intro h
      obtain ⟨other, hother, hnamed⟩ := h ⟨network, hlongest⟩
      refine ⟨_, hwalk, .inr ⟨other, hother, ?_⟩⟩
      rw [(hsame other hother).mpr hnamed]

end Texts

end Manus.AciSubnets
