import Manus.Lib.Words
import Mathlib.Algebra.GroupWithZero.Nat
import Mathlib.Data.List.TakeWhile
import Mathlib.Data.Nat.Notation
import Mathlib.Tactic.Common

/-! # Addresses and networks

The texts of IPv4 and IPv6 addresses and of networks. An IPv6 text leaves the longest
run of zeros out, and ends in an IPv4 address where it maps one. The text of an address
without a scope is read as that address, so different addresses have different texts.
-/

namespace Manus

inductive IpVersion where
  | v4
  | v6
  deriving DecidableEq

def IpVersion.bits : IpVersion → ℕ
  | .v4 => 32
  | .v6 => 128

structure IpAddress where
  version : IpVersion
  value : ℕ
  scope : Option (List Char) := none
  bound : value < 2 ^ version.bits
  deriving DecidableEq

/-- A network begins at a multiple of its size. -/
structure IpNetwork where
  version : IpVersion
  address : ℕ
  prefixLength : ℕ
  scope : Option (List Char) := none
  bound : address < 2 ^ version.bits
  short : prefixLength ≤ version.bits
  aligned : 2 ^ (version.bits - prefixLength) ∣ address
  deriving DecidableEq

/-- `address in network`. -/
def IpNetwork.contains (network : IpNetwork) (address : IpAddress) : Bool :=
  let size := 2 ^ (network.version.bits - network.prefixLength)
  address.version = network.version && address.value / size * size == network.address

section Ipv4

def octet? (text : List Char) : Option ℕ :=
  if text = [] ∨ ¬ text.all Char.isDigit ∨ 3 < text.length ∨
      (text ≠ ['0'] ∧ text.head? = some '0') then none
  else
    let octet := Nat.ofDigitChars 10 text 0
    if 255 < octet then none else some octet

def ipv4Value (text : List Char) : Option ℕ :=
  match (text.splitOn '.').mapM octet? with
  | some [a, b, c, d] => some (((a * 256 + b) * 256 + c) * 256 + d)
  | _ => none

def ipv4Text (value : ℕ) : List Char :=
  ['.'].intercalate [Nat.toDigits 10 (value / 16777216 % 256),
    Nat.toDigits 10 (value / 65536 % 256),
    Nat.toDigits 10 (value / 256 % 256), Nat.toDigits 10 (value % 256)]

end Ipv4

section Ipv6

def hexDigitValue (c : Char) : Option ℕ :=
  if '0' ≤ c ∧ c ≤ '9' then some (c.toNat - '0'.toNat)
  else if 'a' ≤ c ∧ c ≤ 'f' then some (c.toNat - 'a'.toNat + 10)
  else if 'A' ≤ c ∧ c ≤ 'F' then some (c.toNat - 'A'.toNat + 10)
  else none

def hextet? (text : List Char) : Option ℕ :=
  if text = [] ∨ 4 < text.length then none
  else text.foldlM (fun value c => (hexDigitValue c).map (value * 16 + ·)) 0

/-- The parts on one side of the zeros that are left out; a colon at the end of the text leaves
one empty part. -/
def sideHextets (parts : List (List Char)) : Option (List ℕ) :=
  if parts = [[]] then some [] else parts.mapM hextet?

/-- The numbers between the colons, with the zeros that are left out. -/
def hextetsOf : List (List Char) → Option (List ℕ)
  | [] => none
  | first :: others =>
    let inside := others.dropLast
    match inside.dropWhile (· ≠ []) with
    | [] => if (first :: others).length = 8 then (first :: others).mapM hextet? else none
    | _ :: after =>
      if [] ∈ after then none
      else do
        let high ← sideHextets (first :: inside.takeWhile (· ≠ []))
        let low ← sideHextets (after ++ [others.getLast?.getD []])
        if 8 ≤ high.length + low.length then none
        else some (high ++ List.replicate (8 - (high.length + low.length)) 0 ++ low)

def hexChar (digit : ℕ) : Char :=
  if digit < 10 then Char.ofNat ('0'.toNat + digit) else Char.ofNat ('a'.toNat + (digit - 10))

/-- The digits of a number of 16 bits, without zeros in front. -/
def hexText (hextet : ℕ) : List Char :=
  (([hextet / 4096, hextet / 256 % 16, hextet / 16 % 16].dropWhile (· == 0)) ++
    [hextet % 16]).map hexChar

/-- An IPv4 address at the end stands for two numbers. -/
def withSuffix (parts : List (List Char)) : Option (List (List Char)) :=
  let last := parts.getLast?.getD []
  if '.' ∈ last then
    (ipv4Value last).map fun value =>
      parts.dropLast ++ [hexText (value / 65536), hexText (value % 65536)]
  else some parts

def ipv6Value (text : List Char) : Option ℕ :=
  let parts := text.splitOn ':'
  if parts.length < 3 then none
  else do
    let parts ← withSuffix parts
    if 9 < parts.length then none
    else
      let hextets ← hextetsOf parts
      some (hextets.foldl (fun value hextet => value * 65536 + hextet) 0)

def hextets (value : ℕ) : List ℕ :=
  [value / 65536 ^ 7 % 65536, value / 65536 ^ 6 % 65536, value / 65536 ^ 5 % 65536,
    value / 65536 ^ 4 % 65536, value / 65536 ^ 3 % 65536, value / 65536 ^ 2 % 65536,
    value / 65536 % 65536, value % 65536]

/-- Start and length of the first longest run of zeros. -/
def longestZeros : List ℕ → ℕ × ℕ
  | [] => (0, 0)
  | hextet :: rest =>
    let here := ((hextet :: rest).takeWhile (· == 0)).length
    let later := longestZeros rest
    if 0 < here ∧ later.2 ≤ here then (0, here) else (later.1 + 1, later.2)

/-- `_compress_hextets`. -/
def compressHextets (hextets : List ℕ) : List (List Char) :=
  let run := longestZeros hextets
  if run.2 ≤ 1 then hextets.map hexText
  else
    (if run.1 = 0 then [[]] else []) ++ (hextets.take run.1).map hexText ++ [[]] ++
      (hextets.drop (run.1 + run.2)).map hexText ++
      (if run.1 + run.2 = hextets.length then [[]] else [])

def hextetsText (value : ℕ) : List Char := [':'].intercalate (compressHextets (hextets value))

def ipv6Text (value : ℕ) : List Char :=
  if value / 4294967296 = 0xffff then
    hextetsText 0xffff ++ ':' :: ipv4Text (value % 4294967296)
  else hextetsText value

/-- An address and its scope. -/
def splitScope (text : List Char) : Option (List Char × Option (List Char)) :=
  match text.dropWhile (· ≠ '%') with
  | [] => some (text, none)
  | _ :: scope =>
    if scope = [] ∨ '%' ∈ scope then none else some (text.takeWhile (· ≠ '%'), some scope)

end Ipv6

section Texts

/-- `str(address)`. -/
def IpAddress.text (address : IpAddress) : String :=
  match address.version with
  | .v4 => String.ofList (ipv4Text address.value)
  | .v6 => String.ofList (ipv6Text address.value ++
      (address.scope.map fun scope => '%' :: scope).getD [])

/-- `ipaddress.ip_address(text)`. -/
def ipAddress (text : List Char) : Option IpAddress :=
  match ipv4Value text with
  | some value => if h : value < 2 ^ IpVersion.bits .v4 then some ⟨.v4, value, none, h⟩ else none
  | none => (splitScope text).bind fun (address, scope) => (ipv6Value address).bind fun value =>
    if h : value < 2 ^ IpVersion.bits .v6 then some ⟨.v6, value, scope, h⟩ else none

/-- The prefix length of a mask: its number, or for IPv4 also a netmask or a hostmask. -/
def maskLength (version : IpVersion) (text : List Char) : Option ℕ :=
  if text ≠ [] ∧ text.all Char.isDigit then
    let length := Nat.ofDigitChars 10 text 0
    if length ≤ version.bits then some length else none
  else match version with
    | .v6 => none
    | .v4 => (ipv4Value text).bind fun mask =>
      ((List.range 33).find? fun length => mask == 2 ^ 32 - 2 ^ (32 - length)).or
        ((List.range 33).find? fun length => mask == 2 ^ (32 - length) - 1)

/-- The network that an address belongs to. -/
def networkOf (address : IpAddress) (length : ℕ) : Option IpNetwork :=
  let size := 2 ^ (address.version.bits - length)
  let start := address.value / size * size
  if h : length ≤ address.version.bits then
    some ⟨address.version, start, length, if start = address.value then address.scope else none,
      Nat.lt_of_le_of_lt (Nat.div_mul_le_self _ _) address.bound, h, ⟨_, Nat.mul_comm _ _⟩⟩
  else none

/-- `ipaddress.ip_network(text, strict=False)`. -/
def ipNetwork (text : List Char) : Option IpNetwork :=
  match text.splitOn '/' with
  | [address] => (ipAddress address).bind fun address => networkOf address address.version.bits
  | [address, mask] => (ipAddress address).bind fun address =>
    (maskLength address.version mask).bind fun length => networkOf address length
  | _ => none

/-- `ipaddress.ip_network((address, length))`: IPv4 is tried first, and IPv6 only where the address
or the length does not fit; an address inside the network raises. -/
def ipNetworkPair (address length : ℕ) : Option IpNetwork :=
  let version : IpVersion := if address < 2 ^ 32 ∧ length ≤ 32 then .v4 else .v6
  if h : address < 2 ^ version.bits ∧ length ≤ version.bits ∧
      2 ^ (version.bits - length) ∣ address then
    some ⟨version, address, length, none, h.1, h.2.1, h.2.2⟩
  else none

/-- `str(network)`. -/
def IpNetwork.text (network : IpNetwork) : String :=
  (IpAddress.text ⟨network.version, network.address, network.scope, network.bound⟩) ++ "/" ++
    toString network.prefixLength

end Texts

section Ipv4Texts

theorem octet?_toDigits : ∀ n < 256, octet? (Nat.toDigits 10 n) = some n := by decide +kernel

theorem not_mem_toDigits {c : Char} (hc : c.isDigit = false) (n : ℕ) : c ∉ Nat.toDigits 10 n := by
  intro hmem
  rw [Nat.isDigit_of_mem_toDigits (by decide) (by decide) hmem] at hc
  cases hc

theorem ipv4Value_text {value : ℕ} (h : value < 2 ^ 32) :
    ipv4Value (ipv4Text value) = some value := by
  have hdot : ∀ n, '.' ∉ Nat.toDigits 10 n := not_mem_toDigits rfl
  have hsplit : (ipv4Text value).splitOn '.' = [Nat.toDigits 10 (value / 16777216 % 256),
      Nat.toDigits 10 (value / 65536 % 256), Nat.toDigits 10 (value / 256 % 256),
      Nat.toDigits 10 (value % 256)] := by
    apply List.splitOn_intercalate
    · simp [hdot]
    · exact List.cons_ne_nil _ _
  have hoctet : ∀ n, octet? (Nat.toDigits 10 (n % 256)) = some (n % 256) :=
    fun n => octet?_toDigits _ (Nat.mod_lt _ (by decide))
  rw [ipv4Value, hsplit]
  simp only [List.mapM_cons, List.mapM_nil, hoctet, Option.pure_def, Option.bind_eq_bind,
    Option.bind_some, Option.some.injEq]
  omega

theorem mem_ipv4Text {c : Char} {value : ℕ} (h : c ∈ ipv4Text value) :
    c = '.' ∨ c.isDigit = true := by
  rcases mem_intercalate h with h | ⟨part, hpart, h⟩
  · exact Or.inl h
  · right
    simp only [List.mem_cons, List.not_mem_nil, or_false] at hpart
    rcases hpart with rfl | rfl | rfl | rfl <;>
      exact Nat.isDigit_of_mem_toDigits (by decide) (by decide) h

theorem isDigit_of_octet? {text : List Char} {octet : ℕ} (h : octet? text = some octet) :
    ∀ c ∈ text, c.isDigit = true := by
  unfold octet? at h
  split at h
  · cases h
  · next hnot =>
    simp only [not_or, not_not, List.all_eq_true] at hnot
    exact hnot.2.1

theorem octet?_of_mapM {parts : List (List Char)} {octets : List ℕ}
    (h : parts.mapM octet? = some octets) : ∀ part ∈ parts, ∃ octet, octet? part = some octet := by
  induction parts generalizing octets with
  | nil => simp
  | cons first parts ih =>
    simp only [List.mapM_cons, Option.pure_def, Option.bind_eq_bind, Option.bind_eq_some_iff] at h
    obtain ⟨octet, hoctet, rest, hrest, -⟩ := h
    intro part hpart
    rcases List.mem_cons.mp hpart with rfl | hpart
    · exact ⟨octet, hoctet⟩
    · exact ih hrest part hpart

theorem ipv4Value_of_colon {text : List Char} (h : ':' ∈ text) : ipv4Value text = none := by
  unfold ipv4Value
  cases hparts : (text.splitOn '.').mapM octet? with
  | none => rfl
  | some octets =>
    exfalso
    have hjoin : ['.'].intercalate (text.splitOn '.') = text := List.intercalate_splitOn '.'
    rw [← hjoin] at h
    rcases mem_intercalate h with h | ⟨part, hpart, h⟩
    · exact absurd h (by decide)
    · obtain ⟨octet, hoctet⟩ := octet?_of_mapM hparts part hpart
      exact absurd (isDigit_of_octet? hoctet ':' h) (by decide)

end Ipv4Texts

section Ipv6Texts

theorem hexDigitValue_hexChar : ∀ d < 16, hexDigitValue (hexChar d) = some d := by decide

theorem hexChar_ne : ∀ d < 16, hexChar d ≠ ':' ∧ hexChar d ≠ '.' ∧ hexChar d ≠ '%' := by decide

theorem mem_hexText {c : Char} {n : ℕ} (hn : n < 65536) (h : c ∈ hexText n) :
    ∃ d < 16, c = hexChar d := by
  obtain ⟨d, hd, rfl⟩ := List.mem_map.mp h
  refine ⟨d, ?_, rfl⟩
  rcases List.mem_append.mp hd with hd | hd
  · have hmem := (List.dropWhile_suffix _).subset hd
    simp only [List.mem_cons, List.not_mem_nil, or_false] at hmem
    omega
  · rw [List.mem_singleton] at hd
    omega

theorem hexText_ne_nil (n : ℕ) : hexText n ≠ [] := by
  simp [hexText]

theorem hextet?_hexText {n : ℕ} (hn : n < 65536) : hextet? (hexText n) = some n := by
  have ha := hexDigitValue_hexChar (n / 4096) (by omega)
  have hb := hexDigitValue_hexChar (n / 256 % 16) (by omega)
  have hc := hexDigitValue_hexChar (n / 16 % 16) (by omega)
  have hd := hexDigitValue_hexChar (n % 16) (by omega)
  by_cases h₁ : n / 4096 = 0
  · by_cases h₂ : n / 256 % 16 = 0
    · by_cases h₃ : n / 16 % 16 = 0
      · simp [hexText, h₁, h₂, h₃, hextet?, hd]
        omega
      · simp [hexText, h₁, h₂, h₃, hextet?, hc, hd]
        omega
    · simp [hexText, h₁, h₂, hextet?, hb, hc, hd]
      omega
  · simp [hexText, h₁, hextet?, ha, hb, hc, hd]
    omega

theorem mapM_hextet? {numbers : List ℕ} (h : ∀ n ∈ numbers, n < 65536) :
    (numbers.map hexText).mapM hextet? = some numbers := by
  induction numbers with
  | nil => rfl
  | cons n numbers ih =>
    rw [List.map_cons, List.mapM_cons, hextet?_hexText (h n List.mem_cons_self),
      ih fun n hn => h n (List.mem_cons_of_mem _ hn)]
    rfl

/-- The parts on one side of the zeros that are left out. -/
def sideParts (numbers : List ℕ) : List (List Char) :=
  if numbers = [] then [[]] else numbers.map hexText

theorem sideParts_ne_nil (numbers : List ℕ) : sideParts numbers ≠ [] := by
  unfold sideParts
  split
  · exact List.cons_ne_nil _ _
  · next h => simpa using h

theorem sideHextets_sideParts {numbers : List ℕ} (h : ∀ n ∈ numbers, n < 65536) :
    sideHextets (sideParts numbers) = some numbers := by
  cases numbers with
  | nil => rfl
  | cons n numbers =>
    have hne : (n :: numbers).map hexText ≠ [[]] := by
      simp [hexText_ne_nil]
    rw [sideParts, if_neg (List.cons_ne_nil _ _), sideHextets, if_neg hne]
    exact mapM_hextet? h

theorem nil_not_mem_tail_sideParts (numbers : List ℕ) : [] ∉ (sideParts numbers).tail := by
  unfold sideParts
  split
  · exact List.not_mem_nil
  · intro hmem
    obtain ⟨n, -, hn⟩ := List.mem_map.mp (List.mem_of_mem_tail hmem)
    exact hexText_ne_nil n hn

theorem nil_not_mem_dropLast_sideParts (numbers : List ℕ) : [] ∉ (sideParts numbers).dropLast := by
  unfold sideParts
  split
  · exact List.not_mem_nil
  · intro hmem
    obtain ⟨n, -, hn⟩ := List.mem_map.mp (List.dropLast_subset _ hmem)
    exact hexText_ne_nil n hn

/-- The zeros that are left out are read again. -/
theorem hextetsOf_sides {high low : List ℕ} (hhigh : ∀ n ∈ high, n < 65536)
    (hlow : ∀ n ∈ low, n < 65536) (hlen : high.length + low.length < 8) :
    hextetsOf (sideParts high ++ [] :: sideParts low) =
      some (high ++ List.replicate (8 - (high.length + low.length)) 0 ++ low) := by
  obtain ⟨first, rest, hfirst⟩ := List.exists_cons_of_ne_nil (sideParts_ne_nil high)
  have hrest : [] ∉ rest := by
    have := nil_not_mem_tail_sideParts high
    rwa [hfirst] at this
  have hlast : (sideParts low).dropLast ++ [(sideParts low).getLast?.getD []] = sideParts low := by
    rw [List.getLast?_eq_some_getLast (sideParts_ne_nil low), Option.getD_some,
      List.dropLast_concat_getLast]
  have hinside : (rest ++ [] :: sideParts low).dropLast =
      rest ++ [] :: (sideParts low).dropLast := by
    rw [List.dropLast_append_of_ne_nil (List.cons_ne_nil _ _),
      List.dropLast_cons_of_ne_nil (sideParts_ne_nil low)]
  have hend : (rest ++ [] :: sideParts low).getLast? = (sideParts low).getLast? := by
    rw [List.getLast?_append, List.getLast?_cons_of_ne_nil (sideParts_ne_nil low),
      List.getLast?_eq_some_getLast (sideParts_ne_nil low), Option.some_or]
  have hdrop : (rest ++ [] :: (sideParts low).dropLast).dropWhile (· ≠ []) =
      [] :: (sideParts low).dropLast := by
    rw [List.dropWhile_append_of_pos]
    · rfl
    · intro part hpart
      simpa using fun h : part = [] => hrest (h ▸ hpart)
  have htake : (rest ++ [] :: (sideParts low).dropLast).takeWhile (· ≠ []) = rest := by
    rw [List.takeWhile_append_of_pos]
    · simp
    · intro part hpart
      simpa using fun h : part = [] => hrest (h ▸ hpart)
  rw [hfirst, List.cons_append, hextetsOf]
  simp only [hinside, hdrop, htake, hend, if_neg (nil_not_mem_dropLast_sideParts low), hlast]
  rw [← hfirst, sideHextets_sideParts hhigh, sideHextets_sideParts hlow]
  simp only [Option.bind_eq_bind, Option.bind_some, if_neg (Nat.not_le.mpr hlen)]

theorem hextetsOf_eight {numbers : List ℕ} (hlen : numbers.length = 8)
    (h : ∀ n ∈ numbers, n < 65536) : hextetsOf (numbers.map hexText) = some numbers := by
  cases numbers with
  | nil => cases hlen
  | cons n numbers =>
    have hinside : ((numbers.map hexText).dropLast).dropWhile (· ≠ []) = [] := by
      rw [← List.append_nil ((numbers.map hexText).dropLast), List.dropWhile_append_of_pos]
      · rfl
      · intro part hpart
        obtain ⟨m, -, rfl⟩ := List.mem_map.mp (List.dropLast_subset _ hpart)
        simpa using hexText_ne_nil m
    rw [List.map_cons, hextetsOf]
    simp only [hinside]
    rw [← List.map_cons, List.length_map, if_pos hlen]
    exact mapM_hextet? h

theorem longestZeros_spec (numbers : List ℕ) :
    (longestZeros numbers).1 + (longestZeros numbers).2 ≤ numbers.length ∧
      (numbers.drop (longestZeros numbers).1).take (longestZeros numbers).2 =
        List.replicate (longestZeros numbers).2 0 := by
  induction numbers with
  | nil => exact ⟨Nat.le_refl _, rfl⟩
  | cons n numbers ih =>
    rw [longestZeros]
    split
    · constructor
      · rw [Nat.zero_add]
        exact (List.takeWhile_prefix _).length_le
      · rw [List.drop_zero, ← List.prefix_iff_eq_take.mp (List.takeWhile_prefix _),
          List.eq_replicate_iff]
        refine ⟨rfl, fun m hm => ?_⟩
        simpa using List.mem_takeWhile_imp hm
    · obtain ⟨hlen, hzeros⟩ := ih
      constructor
      · rw [List.length_cons]
        omega
      · rw [List.drop_succ_cons]
        exact hzeros

theorem eq_append_zeros (numbers : List ℕ) :
    numbers = numbers.take (longestZeros numbers).1 ++
      List.replicate (longestZeros numbers).2 0 ++
      numbers.drop ((longestZeros numbers).1 + (longestZeros numbers).2) := by
  obtain ⟨-, hzeros⟩ := longestZeros_spec numbers
  rw [← hzeros, List.append_assoc, ← List.drop_drop, List.take_append_drop,
    List.take_append_drop]

theorem sideParts_take {numbers : List ℕ} (hne : numbers ≠ []) (start : ℕ) :
    (if start = 0 then [[]] else []) ++ (numbers.take start).map hexText =
      sideParts (numbers.take start) := by
  by_cases hstart : start = 0
  · subst hstart
    rfl
  · have htake : numbers.take start ≠ [] := by
      rw [Ne, List.take_eq_nil_iff, not_or]
      exact ⟨hstart, hne⟩
    rw [if_neg hstart, sideParts, if_neg htake, List.nil_append]

theorem sideParts_drop {numbers : List ℕ} {stop : ℕ} (hstop : stop ≤ numbers.length) :
    (numbers.drop stop).map hexText ++ (if stop = numbers.length then [[]] else []) =
      sideParts (numbers.drop stop) := by
  by_cases hend : stop = numbers.length
  · subst hend
    simp [sideParts]
  · have hdrop : numbers.drop stop ≠ [] := by
      rw [Ne, List.drop_eq_nil_iff]
      omega
    rw [if_neg hend, sideParts, if_neg hdrop, List.append_nil]

theorem compressHextets_eq {numbers : List ℕ} (hlen : numbers.length = 8)
    (hrun : ¬ (longestZeros numbers).2 ≤ 1) :
    compressHextets numbers = sideParts (numbers.take (longestZeros numbers).1) ++
      [] :: sideParts (numbers.drop ((longestZeros numbers).1 + (longestZeros numbers).2)) := by
  have hne : numbers ≠ [] := by
    rintro rfl
    cases hlen
  rw [← sideParts_take hne, ← sideParts_drop (longestZeros_spec numbers).1, compressHextets]
  simp only [if_neg hrun, List.append_assoc, List.cons_append, List.nil_append]

theorem hextetsOf_compressHextets {numbers : List ℕ} (hlen : numbers.length = 8)
    (h : ∀ n ∈ numbers, n < 65536) : hextetsOf (compressHextets numbers) = some numbers := by
  by_cases hrun : (longestZeros numbers).2 ≤ 1
  · rw [compressHextets]
    simp only [if_pos hrun]
    exact hextetsOf_eight hlen h
  · have hspec := (longestZeros_spec numbers).1
    have hsides : (numbers.take (longestZeros numbers).1).length +
        (numbers.drop ((longestZeros numbers).1 + (longestZeros numbers).2)).length =
          8 - (longestZeros numbers).2 := by
      rw [List.length_take, List.length_drop]
      omega
    have hzeros : 8 - (8 - (longestZeros numbers).2) = (longestZeros numbers).2 := by omega
    rw [compressHextets_eq hlen hrun, hextetsOf_sides
      (fun n hn => h n (List.take_subset _ _ hn)) (fun n hn => h n (List.drop_subset _ _ hn))
      (by omega), hsides, hzeros, ← eq_append_zeros]

theorem length_sideParts (numbers : List ℕ) :
    (sideParts numbers).length = max 1 numbers.length := by
  unfold sideParts
  split
  · next h => simp [h]
  · next h =>
    have hpos := List.length_pos_iff.mpr h
    rw [List.length_map]
    omega

theorem length_compressHextets {numbers : List ℕ} (hlen : numbers.length = 8) :
    3 ≤ (compressHextets numbers).length ∧ (compressHextets numbers).length ≤ 9 := by
  by_cases hrun : (longestZeros numbers).2 ≤ 1
  · rw [compressHextets]
    simp only [if_pos hrun, List.length_map, hlen]
    decide
  · have hspec := (longestZeros_spec numbers).1
    rw [compressHextets_eq hlen hrun, List.length_append, List.length_cons, length_sideParts,
      length_sideParts, List.length_take, List.length_drop]
    omega

theorem mem_compressHextets {part : List Char} {numbers : List ℕ}
    (h : part ∈ compressHextets numbers) : part = [] ∨ ∃ n ∈ numbers, part = hexText n := by
  unfold compressHextets at h
  dsimp only at h
  split at h
  · obtain ⟨n, hn, rfl⟩ := List.mem_map.mp h
    exact Or.inr ⟨n, hn, rfl⟩
  · simp only [List.mem_append, List.mem_map] at h
    rcases h with (((h | ⟨n, hn, rfl⟩) | h) | ⟨n, hn, rfl⟩) | h
    · split at h <;> simp_all
    · exact Or.inr ⟨n, List.take_subset _ _ hn, rfl⟩
    · exact Or.inl (List.mem_singleton.mp h)
    · exact Or.inr ⟨n, List.drop_subset _ _ hn, rfl⟩
    · split at h <;> simp_all

theorem not_mem_compressHextets {numbers : List ℕ} (h : ∀ n ∈ numbers, n < 65536)
    {part : List Char} (hpart : part ∈ compressHextets numbers) :
    ':' ∉ part ∧ '.' ∉ part ∧ '%' ∉ part := by
  rcases mem_compressHextets hpart with rfl | ⟨n, hn, rfl⟩
  · exact ⟨List.not_mem_nil, List.not_mem_nil, List.not_mem_nil⟩
  · have hchar : ∀ c ∈ hexText n, c ≠ ':' ∧ c ≠ '.' ∧ c ≠ '%' := by
      intro c hc
      obtain ⟨d, hd, rfl⟩ := mem_hexText (h n hn) hc
      exact hexChar_ne d hd
    exact ⟨fun hc => (hchar _ hc).1 rfl, fun hc => (hchar _ hc).2.1 rfl,
      fun hc => (hchar _ hc).2.2 rfl⟩

theorem hextets_lt (value : ℕ) : ∀ n ∈ hextets value, n < 65536 := by
  intro n hn
  simp only [hextets, List.mem_cons, List.not_mem_nil, or_false] at hn
  omega

theorem foldl_hextets {value : ℕ} (h : value < 2 ^ 128) :
    (hextets value).foldl (fun value hextet => value * 65536 + hextet) 0 = value := by
  simp only [hextets, List.foldl_cons, List.foldl_nil]
  omega

theorem splitOn_hextetsText (value : ℕ) :
    (hextetsText value).splitOn ':' = compressHextets (hextets value) := by
  apply List.splitOn_intercalate
  · intro part hpart
    exact (not_mem_compressHextets (hextets_lt value) hpart).1
  · apply List.ne_nil_of_length_pos
    have hlen := @length_compressHextets (hextets value) rfl
    omega

theorem ipv6Value_hextetsText {value : ℕ} (h : value < 2 ^ 128) :
    ipv6Value (hextetsText value) = some value := by
  have hlen : (hextets value).length = 8 := rfl
  have hbounds := length_compressHextets hlen
  have hne : compressHextets (hextets value) ≠ [] := List.ne_nil_of_length_pos (by omega)
  have hlast : '.' ∉ (compressHextets (hextets value)).getLast?.getD [] := by
    rw [List.getLast?_eq_some_getLast hne, Option.getD_some]
    exact (not_mem_compressHextets (hextets_lt value) (List.getLast_mem hne)).2.1
  rw [ipv6Value, splitOn_hextetsText]
  simp only [if_neg (Nat.not_lt.mpr hbounds.1), withSuffix, if_neg hlast, Option.bind_eq_bind,
    Option.bind_some, if_neg (Nat.not_lt.mpr hbounds.2),
    hextetsOf_compressHextets hlen (hextets_lt value), foldl_hextets h]

/-- An address that maps an IPv4 address is read as its number. -/
theorem ipv6Value_mapped {value : ℕ} (hmapped : value / 4294967296 = 0xffff) :
    ipv6Value (hextetsText 0xffff ++ ':' :: ipv4Text (value % 4294967296)) = some value := by
  have hsmall : value % 4294967296 < 2 ^ 32 := Nat.mod_lt _ (by decide)
  generalize hrest : value % 4294967296 = rest at hsmall ⊢
  have hcolon : ':' ∉ ipv4Text rest := by
    intro hmem
    rcases mem_ipv4Text hmem with h | h
    · exact absurd h (by decide)
    · exact absurd h (by decide)
  have hdot : '.' ∈ ipv4Text rest := by
    simp [ipv4Text]
  have hsplit : (hextetsText 0xffff ++ ':' :: ipv4Text rest).splitOn ':' =
      [[], [], "ffff".toList, ipv4Text rest] := by
    rw [List.splitOn_append_cons_self, List.splitOn_eq_singleton hcolon]
    rfl
  have hparts : hextetsOf [[], [], "ffff".toList, hexText (rest / 65536), hexText (rest % 65536)] =
      some [0, 0, 0, 0, 0, 0xffff, rest / 65536, rest % 65536] := by
    apply @hextetsOf_sides [] [0xffff, rest / 65536, rest % 65536]
    · simp
    · simp only [List.mem_cons, List.not_mem_nil, or_false]
      omega
    · simp
  rw [ipv6Value, hsplit]
  simp only [List.length_cons, List.length_nil, withSuffix, List.getLast?_cons_cons,
    List.getLast?_singleton, Option.getD_some, if_pos hdot, ipv4Value_text hsmall, Option.map_some,
    Option.bind_eq_bind, Option.bind_some, List.dropLast, List.cons_append, List.nil_append, hparts,
    List.foldl_cons, List.foldl_nil]
  simp only [Nat.reduceAdd, Nat.reduceLT, if_false, Option.some.injEq]
  omega

end Ipv6Texts

section Round

/-- A scope that can be read: after the percent sign of an IPv6 address, and within a network before
the slash. -/
def ReadableScope (version : IpVersion) (scope : Option (List Char)) : Prop :=
  ∀ s ∈ scope, version = .v6 ∧ s ≠ [] ∧ '%' ∉ s

theorem colon_mem_ipv6Text {value : ℕ} (h : ipv6Value (ipv6Text value) = some value) :
    ':' ∈ ipv6Text value := by
  by_contra hnone
  have hsplit := List.splitOn_eq_singleton hnone
  simp [ipv6Value, hsplit] at h

theorem ipv6Value_text {value : ℕ} (h : value < 2 ^ 128) :
    ipv6Value (ipv6Text value) = some value := by
  unfold ipv6Text
  split
  · next hmapped => exact ipv6Value_mapped hmapped
  · exact ipv6Value_hextetsText h

theorem mem_hextetsText {c : Char} {value : ℕ} (h : c ∈ hextetsText value) :
    c = ':' ∨ ∃ d < 16, c = hexChar d := by
  rcases mem_intercalate h with h | ⟨part, hpart, h⟩
  · exact .inl h
  · rcases mem_compressHextets hpart with rfl | ⟨n, hn, rfl⟩
    · cases h
    · exact .inr (mem_hexText (hextets_lt value n hn) h)

theorem not_mem_ipv6Text {c : Char} (hc : c ≠ ':' ∧ c ≠ '.' ∧ c.isDigit = false)
    (hhex : ∀ d < 16, c ≠ hexChar d) (value : ℕ) : c ∉ ipv6Text value := by
  have hhextets : ∀ value, c ∉ hextetsText value := by
    intro value h
    rcases mem_hextetsText h with rfl | ⟨d, hd, h⟩
    · exact hc.1 rfl
    · exact hhex d hd h
  unfold ipv6Text
  split
  · rw [List.mem_append, List.mem_cons, not_or, not_or]
    refine ⟨hhextets _, hc.1, fun h => ?_⟩
    rcases mem_ipv4Text h with h | h
    · exact hc.2.1 h
    · rw [hc.2.2] at h
      cases h
  · exact hhextets value

theorem percent_not_mem_ipv6Text (value : ℕ) : '%' ∉ ipv6Text value :=
  not_mem_ipv6Text (by decide) (by decide) value

theorem slash_not_mem_ipv6Text (value : ℕ) : '/' ∉ ipv6Text value :=
  not_mem_ipv6Text (by decide) (by decide) value

theorem splitScope_text {text : List Char} {scope : Option (List Char)} (htext : '%' ∉ text)
    (hscope : ∀ s ∈ scope, s ≠ [] ∧ '%' ∉ s) :
    splitScope (text ++ (scope.map fun s => '%' :: s).getD []) = some (text, scope) := by
  have hnot : ∀ c ∈ text, decide (c ≠ '%') = true := by
    intro c hc
    simpa using fun h : c = '%' => htext (h ▸ hc)
  cases scope with
  | none =>
    have hdrop : text.dropWhile (· ≠ '%') = [] := by
      rw [← List.append_nil text, List.dropWhile_append_of_pos hnot]
      rfl
    rw [Option.map_none, Option.getD_none, List.append_nil, splitScope, hdrop]
  | some s =>
    obtain ⟨hne, hpercent⟩ := hscope s rfl
    rw [splitScope, Option.map_some, Option.getD_some, List.dropWhile_append_of_pos hnot,
      List.takeWhile_append_of_pos hnot]
    simp [hne, hpercent]

theorem ipAddress_text_of_readable {address : IpAddress}
    (hscope : ReadableScope address.version address.scope) :
    ipAddress address.text.toList = some address := by
  obtain ⟨version, value, scope, hbound⟩ := address
  cases version with
  | v4 =>
    obtain rfl : scope = none := by
      cases scope with
      | none => rfl
      | some s => cases (hscope s rfl).1
    simp only [IpAddress.text, String.toList_ofList, ipAddress, ipv4Value_text hbound]
    rw [dif_pos hbound]
  | v6 =>
    have hvalue := ipv6Value_text hbound
    have hcolon := List.mem_append_left ((scope.map fun s => '%' :: s).getD [])
      (colon_mem_ipv6Text hvalue)
    simp only [IpAddress.text, String.toList_ofList, ipAddress, ipv4Value_of_colon hcolon,
      splitScope_text (percent_not_mem_ipv6Text value) fun s hs => (hscope s hs).2,
      Option.bind_some, hvalue]
    rw [dif_pos hbound]

theorem ipAddress_text {address : IpAddress} (hscope : address.scope = none) :
    ipAddress address.text.toList = some address := by
  apply ipAddress_text_of_readable
  rw [hscope]
  exact nofun

theorem text_injective {address other : IpAddress} (hscope : address.scope = none)
    (hother : other.scope = none) (h : address.text = other.text) : address = other := by
  have hread := ipAddress_text hscope
  rw [h, ipAddress_text hother] at hread
  exact (Option.some.inj hread).symm

end Round

section NetworkTexts

theorem readableScope_ipAddress {text : List Char} {address : IpAddress}
    (h : ipAddress text = some address) : ReadableScope address.version address.scope := by
  unfold ipAddress at h
  split at h
  · split at h
    · cases h
      rintro s ⟨⟩
    · cases h
  · simp only [Option.bind_eq_some_iff] at h
    obtain ⟨⟨part, scope⟩, hsplit, value, -, h⟩ := h
    split at h
    · cases h
      intro s hs
      obtain rfl : scope = some s := hs
      unfold splitScope at hsplit
      split at hsplit
      · cases hsplit
      · split at hsplit
        · cases hsplit
        · next hgood =>
          cases hsplit
          exact ⟨rfl, not_or.mp hgood⟩
    · cases h

/-- A scope is a part of the text that it is read from. -/
theorem mem_of_ipAddress {text : List Char} {address : IpAddress} {s : List Char} {c : Char}
    (h : ipAddress text = some address) (hs : address.scope = some s) (hc : c ∈ s) : c ∈ text := by
  unfold ipAddress at h
  split at h
  · split at h
    · cases h
      cases hs
    · cases h
  · simp only [Option.bind_eq_some_iff] at h
    obtain ⟨⟨part, scope⟩, hsplit, value, -, h⟩ := h
    split at h
    · cases h
      obtain rfl : scope = some s := hs
      unfold splitScope at hsplit
      split at hsplit
      · cases hsplit
      · next hdrop =>
        split at hsplit
        · cases hsplit
        · cases hsplit
          apply (List.dropWhile_suffix (· ≠ '%')).subset
          rw [hdrop]
          exact List.mem_cons_of_mem _ hc
    · cases h

/-- A network that a text stands for. -/
structure IpNetwork.Readable (network : IpNetwork) : Prop where
  scope : ReadableScope network.version network.scope
  slash : ∀ s ∈ network.scope, '/' ∉ s

theorem readable_networkOf {address : IpAddress} {length : ℕ} {network : IpNetwork}
    (h : networkOf address length = some network)
    (hscope : ReadableScope address.version address.scope)
    (hslash : ∀ s ∈ address.scope, '/' ∉ s) : network.Readable := by
  unfold networkOf at h
  dsimp only at h
  split at h
  · cases h
    constructor
    · intro s hs
      dsimp only at hs ⊢
      split at hs
      · exact hscope s hs
      · cases hs
    · intro s hs
      dsimp only at hs
      split at hs
      · exact hslash s hs
      · cases hs
  · cases h

theorem readable_ipNetwork {text : List Char} {network : IpNetwork}
    (h : ipNetwork text = some network) : network.Readable := by
  unfold ipNetwork at h
  split at h
  · next part hparts =>
    obtain ⟨address, haddress, h⟩ := Option.bind_eq_some_iff.mp h
    apply readable_networkOf h (readableScope_ipAddress haddress)
    intro s hs hmem
    exact (splitOn_eq_singleton_iff.mp hparts).2 (mem_of_ipAddress haddress hs hmem)
  · next part mask hparts =>
    obtain ⟨address, haddress, h⟩ := Option.bind_eq_some_iff.mp h
    obtain ⟨length, -, h⟩ := Option.bind_eq_some_iff.mp h
    apply readable_networkOf h (readableScope_ipAddress haddress)
    intro s hs hmem
    exact (splitOn_eq_pair_iff.mp hparts).2.1 (mem_of_ipAddress haddress hs hmem)
  · cases h

theorem slash_not_mem_text {address : IpAddress} (hslash : ∀ s ∈ address.scope, '/' ∉ s) :
    '/' ∉ address.text.toList := by
  unfold IpAddress.text
  split
  · rw [String.toList_ofList]
    intro h
    rcases mem_ipv4Text h with h | h
    · cases h
    · cases h
  · rw [String.toList_ofList, List.mem_append, not_or]
    refine ⟨slash_not_mem_ipv6Text _, ?_⟩
    cases hscope : address.scope with
    | none => exact List.not_mem_nil
    | some s =>
      rw [Option.map_some, Option.getD_some, List.mem_cons, not_or]
      exact ⟨by decide, hslash s hscope⟩

theorem maskLength_toDigits (version : IpVersion) {length : ℕ} (h : length ≤ version.bits) :
    maskLength version (Nat.toDigits 10 length) = some length := by
  have hdigits : Nat.toDigits 10 length ≠ [] ∧ (Nat.toDigits 10 length).all Char.isDigit := by
    refine ⟨List.ne_nil_of_length_pos Nat.length_toDigits_pos, ?_⟩
    rw [List.all_eq_true]
    exact fun c hc => Nat.isDigit_of_mem_toDigits (by decide) (by decide) hc
  unfold maskLength
  rw [if_pos hdigits]
  simp only [Nat.ofDigitChars_ten_toDigits, if_pos h]

theorem networkOf_address (network : IpNetwork) :
    networkOf ⟨network.version, network.address, network.scope, network.bound⟩
      network.prefixLength = some network := by
  have hstart := Nat.div_mul_cancel network.aligned
  simp only [networkOf, dif_pos network.short, hstart, if_true]

theorem ipNetwork_text {network : IpNetwork} (h : network.Readable) :
    ipNetwork network.text.toList = some network := by
  set address : IpAddress := ⟨network.version, network.address, network.scope, network.bound⟩
  have hsplit : network.text.toList.splitOn '/' =
      [address.text.toList, Nat.toDigits 10 network.prefixLength] := by
    apply splitOn_eq_pair_iff.mpr
    refine ⟨?_, slash_not_mem_text h.slash, not_mem_toDigits rfl _⟩
    simp [IpNetwork.text, address, Nat.toList_repr]
  have haddress : ipAddress address.text.toList = some address := ipAddress_text_of_readable h.scope
  have hlength := maskLength_toDigits address.version network.short
  rw [ipNetwork, hsplit]
  simp only [haddress, Option.bind_some, hlength]
  exact networkOf_address network

end NetworkTexts

end Manus
