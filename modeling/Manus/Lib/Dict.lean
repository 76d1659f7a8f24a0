import Manus.Lib.Except
import Mathlib.Data.List.Lookmap
import Mathlib.Data.List.Nodup

/-! # Insertion-ordered dictionaries

A dictionary with string keys that remembers the order in which its keys were
first inserted. Overwriting a key keeps its place, a new key goes to the end.
Two dictionaries hold the same map when `get?` agrees on every key.
-/

namespace Manus

/-- Key-value pairs in insertion order, no key twice. -/
structure Dict (α : Type) where
  entries : List (String × α)
  nodup : (entries.map Prod.fst).Nodup
  deriving DecidableEq

namespace Dict

variable {α β ε : Type}

/-- The value stored under a key. -/
def get? (d : Dict α) (k : String) : Option α := d.entries.lookup k

/-- The keys in insertion order. -/
def keys (d : Dict α) : List String := d.entries.map Prod.fst

/-- The values in insertion order. -/
def values (d : Dict α) : List α := d.entries.map Prod.snd

def isEmpty (d : Dict α) : Bool := d.entries.isEmpty

def empty : Dict α := ⟨[], List.nodup_nil⟩

instance : EmptyCollection (Dict α) := ⟨empty⟩

instance : Inhabited (Dict α) := ⟨empty⟩

theorem keys_nodup (d : Dict α) : d.keys.Nodup := d.nodup

/-- Replace the value of a key in place, or append the pair when the key is new. -/
def insertEntry (k : String) (v : α) : List (String × α) → List (String × α)
  | [] => [(k, v)]
  | (k', v') :: rest => if k' = k then (k, v) :: rest else (k', v') :: insertEntry k v rest

theorem mem_keys_insertEntry {k k' : String} {v : α} {l : List (String × α)} :
    k' ∈ (insertEntry k v l).map Prod.fst ↔ k' = k ∨ k' ∈ l.map Prod.fst := by
  induction l with
  | nil => simp [insertEntry]
  | cons e rest ih =>
    obtain ⟨k₀, v₀⟩ := e
    by_cases h : k₀ = k
    · subst h; simp [insertEntry]
    · simp only [insertEntry, if_neg h, List.map_cons, List.mem_cons, ih]
      exact or_left_comm

theorem nodup_insertEntry {k : String} {v : α} {l : List (String × α)}
    (h : (l.map Prod.fst).Nodup) : ((insertEntry k v l).map Prod.fst).Nodup := by
  induction l with
  | nil => simp [insertEntry]
  | cons e rest ih =>
    obtain ⟨k₀, v₀⟩ := e
    obtain ⟨hk, hr⟩ := List.nodup_cons.mp h
    by_cases he : k₀ = k
    · subst he; simpa [insertEntry] using h
    · simp only [insertEntry, if_neg he, List.map_cons]
      refine List.nodup_cons.mpr ⟨?_, ih hr⟩
      rw [mem_keys_insertEntry]
      exact not_or.mpr ⟨he, hk⟩

theorem lookup_pair_cons (k k₀ : String) (v₀ : α) (l : List (String × α)) :
    ((k₀, v₀) :: l).lookup k = if k = k₀ then some v₀ else l.lookup k := by
  rw [List.lookup_cons]
  by_cases h : k = k₀
  · simp [h]
  · have hb : (k == k₀) = false := by simpa using h
    simp [hb, h]

theorem lookup_insertEntry (k k' : String) (v : α) (l : List (String × α)) :
    (insertEntry k v l).lookup k' = if k' = k then some v else l.lookup k' := by
  induction l with
  | nil => simp [insertEntry, lookup_pair_cons]
  | cons e rest ih =>
    obtain ⟨k₀, v₀⟩ := e
    by_cases he : k₀ = k
    · subst he
      by_cases h : k' = k₀ <;> simp [insertEntry, lookup_pair_cons, h]
    · simp only [insertEntry, if_neg he, lookup_pair_cons, ih]
      by_cases h : k' = k
      · subst h; simp [Ne.symm he]
      · simp [h]

theorem insertEntry_self {k : String} {v : α} {l : List (String × α)} (h : l.lookup k = some v) :
    insertEntry k v l = l := by
  induction l with
  | nil => cases h
  | cons e rest ih =>
    obtain ⟨k₀, v₀⟩ := e
    rw [lookup_pair_cons] at h
    by_cases hk : k = k₀
    · subst hk
      simp only [if_true, Option.some.injEq] at h
      simp [insertEntry, h]
    · rw [if_neg hk] at h
      simp [insertEntry, Ne.symm hk, ih h]

theorem insertEntry_new {k : String} {v : α} {l : List (String × α)} (h : l.lookup k = none) :
    insertEntry k v l = l ++ [(k, v)] := by
  induction l with
  | nil => rfl
  | cons e rest ih =>
    obtain ⟨k₀, v₀⟩ := e
    rw [lookup_pair_cons] at h
    by_cases hk : k = k₀
    · simp [hk] at h
    · rw [if_neg hk] at h
      simp [insertEntry, Ne.symm hk, ih h]

/-- `d[k] = v`. -/
def insert (d : Dict α) (k : String) (v : α) : Dict α :=
  ⟨insertEntry k v d.entries, nodup_insertEntry d.nodup⟩

/-- `{**d, **e}`: the values of `e` win. -/
def update (d e : Dict α) : Dict α := e.entries.foldl (fun acc p => acc.insert p.1 p.2) d

/-- `{k: v for (k, v) in pairs}`: a later pair overwrites an earlier one. -/
def ofPairs (pairs : List (String × α)) : Dict α :=
  pairs.foldl (fun acc p => acc.insert p.1 p.2) ∅

/-- `{k: f(v) for k, v in d.items()}`. -/
def mapValues (f : α → β) (d : Dict α) : Dict β :=
  ⟨d.entries.map fun p => (p.1, f p.2), by
    have h : (d.entries.map fun p => (p.1, f p.2)).map Prod.fst = d.entries.map Prod.fst := by
      simp [Function.comp_def]
    rw [h]; exact d.nodup⟩

/-- The entries whose key passes a test. -/
def restrict (d : Dict α) (p : String → Bool) : Dict α :=
  ⟨d.entries.filter fun e => p e.1,
    d.nodup.sublist (List.filter_sublist.map Prod.fst)⟩

@[simp] theorem get?_empty (k : String) : (∅ : Dict α).get? k = none := rfl

@[simp] theorem get?_insert (d : Dict α) (k k' : String) (v : α) :
    (d.insert k v).get? k' = if k' = k then some v else d.get? k' :=
  lookup_insertEntry k k' v d.entries

theorem mem_keys_iff {d : Dict α} {k : String} : k ∈ d.keys ↔ (d.get? k).isSome := by
  simp only [keys, get?, List.mem_map, Option.isSome_iff_exists]
  constructor
  · rintro ⟨⟨k', v⟩, hm, rfl⟩
    cases h : d.entries.lookup k' with
    | some w => exact ⟨w, rfl⟩
    | none => exact absurd (List.lookup_eq_none_iff.mp h _ hm) (by simp)
  · rintro ⟨v, h⟩
    obtain ⟨l₁, l₂, hl, -⟩ := List.lookup_eq_some_iff.mp h
    exact ⟨(k, v), by rw [hl]; simp, rfl⟩

theorem not_mem_keys_iff {d : Dict α} {k : String} : k ∉ d.keys ↔ d.get? k = none := by
  rw [mem_keys_iff]; simp

theorem get?_eq_some_iff {d : Dict α} {k : String} {v : α} :
    d.get? k = some v ↔ (k, v) ∈ d.entries := by
  obtain ⟨l, hl⟩ := d
  simp only [get?]
  induction l with
  | nil => simp
  | cons e rest ih =>
    obtain ⟨k₀, v₀⟩ := e
    obtain ⟨hk, hr⟩ := List.nodup_cons.mp hl
    by_cases h : k = k₀
    · subst h
      have hne : (k, v) ∉ rest := fun hw => hk (List.mem_map.mpr ⟨(k, v), hw, rfl⟩)
      simp [hne, eq_comm]
    · simp [lookup_pair_cons, h, ih hr]

theorem get?_foldl_insert (pairs : List (String × α)) (d : Dict α) (k : String) :
    (pairs.foldl (fun acc p => acc.insert p.1 p.2) d).get? k =
      (pairs.reverse.lookup k).or (d.get? k) := by
  induction pairs generalizing d with
  | nil => simp
  | cons p rest ih =>
    obtain ⟨k₀, v₀⟩ := p
    rw [List.foldl_cons, ih, get?_insert, List.reverse_cons, List.lookup_append]
    cases rest.reverse.lookup k with
    | some v => rfl
    | none => by_cases h : k = k₀ <;> simp [lookup_pair_cons, h]

theorem lookup_reverse {l : List (String × α)} (h : (l.map Prod.fst).Nodup) (k : String) :
    l.reverse.lookup k = l.lookup k := by
  have hr : (l.reverse.map Prod.fst).Nodup := by
    rw [List.map_reverse]; exact List.nodup_reverse.mpr h
  cases hl : l.lookup k with
  | some v =>
    have hm : (k, v) ∈ l := get?_eq_some_iff (d := ⟨l, h⟩).mp hl
    exact get?_eq_some_iff (d := ⟨l.reverse, hr⟩).mpr (List.mem_reverse.mpr hm)
  | none =>
    refine List.lookup_eq_none_iff.mpr fun p hp => ?_
    exact List.lookup_eq_none_iff.mp hl p (List.mem_reverse.mp hp)

@[simp] theorem get?_update (d e : Dict α) (k : String) :
    (d.update e).get? k = (e.get? k).or (d.get? k) := by
  rw [update, get?_foldl_insert, lookup_reverse e.nodup]; rfl

theorem of_get?_foldl_update {γ : Type} {f : γ → Dict α} {l : List γ} {d : Dict α} {k : String}
    {v : α} (h : (l.foldl (fun acc s => acc.update (f s)) d).get? k = some v) :
    d.get? k = some v ∨ ∃ s ∈ l, (f s).get? k = some v := by
  induction l generalizing d with
  | nil => exact .inl h
  | cons s l ih =>
    rcases ih h with hd | ⟨t, ht, hv⟩
    · rw [get?_update] at hd
      rcases Option.or_eq_some_iff.mp hd with hs | ⟨-, hd⟩
      · exact .inr ⟨s, List.mem_cons_self, hs⟩
      · exact .inl hd
    · exact .inr ⟨t, List.mem_cons_of_mem _ ht, hv⟩

theorem isSome_foldl_update {γ : Type} {f : γ → Dict α} {l : List γ} {d : Dict α} {k : String}
    (h : (d.get? k).isSome ∨ ∃ s ∈ l, ((f s).get? k).isSome) :
    ((l.foldl (fun acc s => acc.update (f s)) d).get? k).isSome := by
  induction l generalizing d with
  | nil => simpa using h
  | cons s l ih =>
    refine ih ?_
    rcases h with h | ⟨t, ht, h⟩
    · left
      rw [get?_update, Option.isSome_or, h, Bool.or_true]
    · rcases List.mem_cons.mp ht with rfl | ht
      · left
        rw [get?_update, Option.isSome_or, h, Bool.true_or]
      · exact .inr ⟨t, ht, h⟩

theorem get?_ofPairs (pairs : List (String × α)) (k : String) :
    (ofPairs pairs).get? k = pairs.reverse.lookup k := by
  rw [ofPairs, get?_foldl_insert]; simp

theorem get?_ofPairs_of_mem {pairs : List (String × α)} (hn : (pairs.map Prod.fst).Nodup)
    {k : String} {v : α} (h : (k, v) ∈ pairs) : (ofPairs pairs).get? k = some v := by
  rw [get?_ofPairs, lookup_reverse hn]
  exact get?_eq_some_iff (d := ⟨pairs, hn⟩).mpr h

theorem get?_ofPairs_map {keys : List String} {k : String} (hk : k ∈ keys) (f : String → α) :
    (ofPairs (keys.map fun k => (k, f k))).get? k = some (f k) := by
  rw [get?_ofPairs, ← List.map_reverse]
  have hk := List.mem_reverse.mpr hk
  generalize keys.reverse = l at hk
  induction l with
  | nil => cases hk
  | cons k₀ l ih =>
    rw [List.map_cons, lookup_pair_cons]
    by_cases h : k = k₀
    · simp [h]
    · rw [if_neg h]
      exact ih ((List.mem_cons.mp hk).resolve_left h)

theorem ext_entries {d e : Dict α} (h : d.entries = e.entries) : d = e := by
  cases d
  cases e
  cases h
  rfl

@[simp] theorem get?_mapValues (f : α → β) (d : Dict α) (k : String) :
    (d.mapValues f).get? k = (d.get? k).map f := by
  obtain ⟨l, hl⟩ := d
  simp only [mapValues, get?]
  clear hl
  induction l with
  | nil => rfl
  | cons e rest ih =>
    obtain ⟨k₀, v₀⟩ := e
    simp only [List.map_cons, lookup_pair_cons, ih]
    split <;> rfl

@[simp] theorem get?_restrict (d : Dict α) (p : String → Bool) (k : String) :
    (d.restrict p).get? k = if p k then d.get? k else none := by
  obtain ⟨l, hl⟩ := d
  simp only [restrict, get?]
  clear hl
  induction l with
  | nil => simp
  | cons e rest ih =>
    obtain ⟨k₀, v₀⟩ := e
    by_cases hp : p k₀
    · simp only [hp, List.filter_cons_of_pos, lookup_pair_cons, ih]
      by_cases h : k = k₀ <;> simp [h, hp]
    · simp only [hp, Bool.false_eq_true, not_false_eq_true, List.filter_cons_of_neg,
        lookup_pair_cons, ih]
      by_cases h : k = k₀ <;> simp [h, hp]

theorem mem_keys_ofPairs {pairs : List (String × α)} {key : String} :
    key ∈ (ofPairs pairs).keys ↔ key ∈ pairs.map Prod.fst := by
  rw [mem_keys_iff, get?_ofPairs]
  have hmem : key ∈ pairs.map Prod.fst ↔ key ∈ pairs.reverse.map Prod.fst := by
    rw [List.map_reverse, List.mem_reverse]
  rw [hmem]
  generalize pairs.reverse = pairs
  induction pairs with
  | nil => simp
  | cons pair pairs ih =>
    obtain ⟨key', value⟩ := pair
    rw [lookup_pair_cons]
    by_cases h : key = key'
    · simp [h]
    · simp [h, ih]

theorem get?_ofPairs_unique {pairs : List (String × α)} {key : String} {value : α}
    (hmem : (key, value) ∈ pairs) (hunique : ∀ other, (key, other) ∈ pairs → other = value) :
    (ofPairs pairs).get? key = some value := by
  have hkey : key ∈ (ofPairs pairs).keys := mem_keys_ofPairs.mpr (List.mem_map.mpr ⟨_, hmem, rfl⟩)
  obtain ⟨found, hfound⟩ := Option.isSome_iff_exists.mp (mem_keys_iff.mp hkey)
  have hlookup := hfound
  rw [get?_ofPairs] at hlookup
  obtain ⟨before, after, hsplit, -⟩ := List.lookup_eq_some_iff.mp hlookup
  have hpairs : (key, found) ∈ pairs := by
    rw [← List.mem_reverse, hsplit]
    simp
  rw [hfound, hunique found hpairs]

theorem mem_keys_update {d e : Dict α} {key : String} :
    key ∈ (d.update e).keys ↔ key ∈ e.keys ∨ key ∈ d.keys := by
  rw [mem_keys_iff, get?_update, Option.isSome_or, Bool.or_eq_true, mem_keys_iff,
    mem_keys_iff]

theorem mem_keys_restrict {d : Dict α} {p : String → Bool} {key : String} :
    key ∈ (d.restrict p).keys ↔ p key = true ∧ key ∈ d.keys := by
  rw [mem_keys_iff, get?_restrict, mem_keys_iff]
  cases p key <;> simp

theorem mem_keys_mapValues {f : α → β} {d : Dict α} {key : String} :
    key ∈ (d.mapValues f).keys ↔ key ∈ d.keys := by
  rw [mem_keys_iff, mem_keys_iff, get?_mapValues, Option.isSome_map]

theorem filter_mem_of_sublist {l l' : List String} (hn : l.Nodup) (h : l'.Sublist l) :
    l.filter (· ∈ l') = l' := by
  induction h with
  | slnil => rfl
  | cons a h ih =>
    obtain ⟨ha, hn⟩ := List.nodup_cons.mp hn
    rw [List.filter_cons_of_neg (by simpa using fun hm => ha (h.subset hm)), ih hn]
  | cons_cons a h ih =>
    obtain ⟨ha, hn⟩ := List.nodup_cons.mp hn
    rw [List.filter_cons_of_pos (by simp)]
    refine congrArg (a :: ·) (Eq.trans (List.filter_congr fun x hx => ?_) (ih hn))
    have : x ≠ a := fun he => ha (he ▸ hx)
    simp [this]

theorem keys_restrict {d : Dict α} {l : List String} (h : l.Sublist d.keys) :
    (d.restrict (· ∈ l)).keys = l := by
  have hkeys : (d.restrict (· ∈ l)).keys = d.keys.filter (· ∈ l) := by
    simp only [restrict, keys, List.filter_map, Function.comp_def]
  rw [hkeys, filter_mem_of_sublist d.keys_nodup h]

theorem isEmpty_iff {d : Dict α} : d.isEmpty = true ↔ ∀ k, d.get? k = none := by
  constructor
  · intro h k
    have : d.entries = [] := List.isEmpty_iff.mp h
    simp [get?, this]
  · intro h
    rw [isEmpty, List.isEmpty_iff]
    by_contra hne
    obtain ⟨⟨k, v⟩, hm⟩ := List.exists_mem_of_ne_nil _ hne
    have hk := get?_eq_some_iff.mpr hm
    rw [h k] at hk
    cases hk

theorem mem_values_iff {d : Dict α} {v : α} : v ∈ d.values ↔ ∃ k, d.get? k = some v := by
  simp only [values, List.mem_map, get?_eq_some_iff]
  exact ⟨fun ⟨⟨k, _⟩, hm, he⟩ => ⟨k, he ▸ hm⟩, fun ⟨k, hm⟩ => ⟨(k, v), hm, rfl⟩⟩

/-- Combine two optional values, with `f` where both are there. -/
def combine (f : α → α → Except ε α) : Option α → Option α → Except ε (Option α)
  | none, r => .ok r
  | some l, none => .ok (some l)
  | some l, some r => (f l r).map some

/-- Put one pair of the right dictionary into the merge, with `f` where the left has the key. -/
def mergeEntry (f : String → α → α → Except ε α) (left merged : Dict α) (p : String × α) :
    Except ε (Dict α) :=
  match left.get? p.1 with
  | none => .ok (merged.insert p.1 p.2)
  | some v => (f p.1 v p.2).map fun u => merged.insert p.1 u

/-- The union of two dictionaries, with `f` on the keys they share. -/
def mergeWith (f : String → α → α → Except ε α) (left right : Dict α) : Except ε (Dict α) :=
  right.entries.foldlM (mergeEntry f left) left

theorem mergeEntry_eq_ok {f : String → α → α → Except ε α} {l merged merged' : Dict α}
    {k : String} {w : α} (h : mergeEntry f l merged (k, w) = .ok merged') :
    ∃ u, combine (f k) (l.get? k) (some w) = .ok (some u) ∧ merged' = merged.insert k u := by
  simp only [mergeEntry] at h
  cases hl : l.get? k with
  | none =>
    rw [hl] at h
    cases h
    exact ⟨w, rfl, rfl⟩
  | some v =>
    rw [hl] at h
    cases hf : f k v w with
    | error e => simp only [hf] at h; cases h
    | ok u =>
      simp only [hf] at h
      cases h
      exact ⟨u, by simp [combine, hf, Except.map], rfl⟩

/-- A merge fills every key by combining what the two sides have there. -/
theorem get?_mergeWith {f : String → α → α → Except ε α} {l r d : Dict α}
    (h : mergeWith f l r = .ok d) (k : String) :
    combine (f k) (l.get? k) (r.get? k) = .ok (d.get? k) := by
  -- over the part of `r` not yet merged, from what has been merged so far
  have key : ∀ (rest : List (String × α)) (merged : Dict α), (rest.map Prod.fst).Nodup →
      rest.foldlM (mergeEntry f l) merged = .ok d →
      (rest.lookup k = none → d.get? k = merged.get? k) ∧
      ∀ w, rest.lookup k = some w → combine (f k) (l.get? k) (some w) = .ok (d.get? k) := by
    intro rest
    induction rest with
    | nil =>
      intro merged _ hm
      cases hm
      simp
    | cons p rest ih =>
      obtain ⟨k₀, w₀⟩ := p
      intro merged hn hm
      obtain ⟨hk₀, hn⟩ := List.nodup_cons.mp hn
      rw [List.foldlM_cons] at hm
      cases he : mergeEntry f l merged (k₀, w₀) with
      | error e => rw [he] at hm; cases hm
      | ok merged' =>
        rw [he] at hm
        obtain ⟨u, hu, rfl⟩ := mergeEntry_eq_ok he
        obtain ⟨hnone, hsome⟩ := ih _ hn hm
        rw [lookup_pair_cons]
        by_cases hk : k = k₀
        · subst hk
          have hlk : rest.lookup k = none := List.lookup_eq_none_iff.mpr fun q hq => by
            simpa using fun he : k = q.1 => hk₀ (List.mem_map.mpr ⟨q, hq, he.symm⟩)
          simpa [hnone hlk] using hu
        · simpa [hk] using And.intro hnone hsome
  obtain ⟨hnone, hsome⟩ := key r.entries l r.nodup h
  cases hr : r.get? k with
  | none =>
    rw [hnone hr]
    cases l.get? k <;> rfl
  | some w => exact hsome w hr

theorem mergeWith_succeeds {f : String → α → α → Except ε α} {l r : Dict α}
    (h : ∀ k a b, l.get? k = some a → r.get? k = some b → ∃ c, f k a b = .ok c) :
    ∃ d, mergeWith f l r = .ok d := by
  have key : ∀ (rest : List (String × α)) (merged : Dict α), (∀ p ∈ rest, p ∈ r.entries) →
      ∃ d, rest.foldlM (mergeEntry f l) merged = .ok d := by
    intro rest
    induction rest with
    | nil => exact fun merged _ => ⟨merged, rfl⟩
    | cons p rest ih =>
      intro merged hrest
      have hp : r.get? p.1 = some p.2 := get?_eq_some_iff.mpr (hrest p List.mem_cons_self)
      have hstep : ∃ merged', mergeEntry f l merged p = .ok merged' := by
        unfold mergeEntry
        cases hl : l.get? p.1 with
        | none => exact ⟨_, rfl⟩
        | some v =>
          obtain ⟨c, hc⟩ := h p.1 v p.2 hl hp
          exact ⟨merged.insert p.1 c, by simp only [hc]; rfl⟩
      obtain ⟨merged', hm⟩ := hstep
      obtain ⟨d, hd⟩ := ih merged' fun q hq => hrest q (List.mem_cons_of_mem _ hq)
      exact ⟨d, by rw [List.foldlM_cons, hm]; exact hd⟩
  exact key r.entries l fun _ hp => hp

/-- Every value of the one is found under its key in the other, up to `R`. -/
def Sub (R : α → α → Prop) (d e : Dict α) : Prop :=
  ∀ k v, d.get? k = some v → ∃ u, e.get? k = some u ∧ R v u

theorem Sub.refl {R : α → α → Prop} (hR : ∀ v, R v v) (d : Dict α) : d.Sub R d :=
  fun _ v h => ⟨v, h, hR v⟩

theorem Sub.trans {R : α → α → Prop} {c d e : Dict α} (h : c.Sub R d) (h' : d.Sub R e)
    (hR : ∀ {u v w}, R u v → R v w → R u w) : c.Sub R e := by
  intro k v hv
  obtain ⟨u, hu, hvu⟩ := h k v hv
  obtain ⟨w, hw, huw⟩ := h' k u hu
  exact ⟨w, hw, hR hvu huw⟩

/-- A merge holds what both sides have, when `f` keeps both of its arguments. -/
theorem sub_mergeWith {R : α → α → Prop} (hR : ∀ v, R v v) {f : String → α → α → Except ε α}
    {l r d : Dict α} (hf : ∀ k a b c, f k a b = .ok c → R a c ∧ R b c)
    (h : mergeWith f l r = .ok d) : l.Sub R d ∧ r.Sub R d := by
  constructor
  · intro k v hv
    have hc := get?_mergeWith h k
    rw [hv] at hc
    cases hr : r.get? k with
    | none =>
      rw [hr] at hc
      exact ⟨v, (Except.ok.inj hc).symm, hR v⟩
    | some w =>
      rw [hr] at hc
      obtain ⟨u, hu, he⟩ := map_eq_ok.mp hc
      exact ⟨u, he.symm, (hf k v w u hu).1⟩
  · intro k w hw
    have hc := get?_mergeWith h k
    rw [hw] at hc
    cases hl : l.get? k with
    | none =>
      rw [hl] at hc
      exact ⟨w, (Except.ok.inj hc).symm, hR w⟩
    | some v =>
      rw [hl] at hc
      obtain ⟨u, hu, he⟩ := map_eq_ok.mp hc
      exact ⟨u, he.symm, (hf k v w u hu).2⟩

/-- `{k: f(k, v) for k, v in d.items()}` where `f` may raise. -/
def traverse (f : String → α → Except ε β) (d : Dict α) : Except ε (Dict β) :=
  (d.entries.mapM fun p => (f p.1 p.2).map fun v => (p.1, v)).map ofPairs

theorem get?_traverse {f : String → α → Except ε β} {d : Dict α} {e : Dict β}
    (h : d.traverse f = .ok e) (k : String) :
    (d.get? k = none → e.get? k = none) ∧
      ∀ v, d.get? k = some v → ∃ u, f k v = .ok u ∧ e.get? k = some u := by
  obtain ⟨pairs, hp, rfl⟩ := map_eq_ok.mp h
  have key : ∀ (l : List (String × α)) (pairs : List (String × β)),
      l.mapM (fun p => (f p.1 p.2).map fun v => (p.1, v)) = .ok pairs →
      pairs.map Prod.fst = l.map Prod.fst ∧ (l.lookup k = none → pairs.lookup k = none) ∧
        ∀ v, l.lookup k = some v → ∃ u, f k v = .ok u ∧ pairs.lookup k = some u := by
    intro l
    induction l with
    | nil =>
      intro pairs hp
      cases hp
      simp
    | cons p l ih =>
      obtain ⟨k₀, v₀⟩ := p
      intro pairs hp
      simp only [List.mapM_cons, bind_eq_ok, map_eq_ok] at hp
      obtain ⟨_, ⟨u, hu, rfl⟩, rest, hrest, hp⟩ := hp
      cases hp
      obtain ⟨hkeys, hnone, hsome⟩ := ih rest hrest
      refine ⟨by simp [hkeys], ?_⟩
      rw [lookup_pair_cons, lookup_pair_cons]
      by_cases hk : k = k₀
      · subst hk
        simp [hu]
      · simpa [hk] using And.intro hnone hsome
  obtain ⟨hkeys, hnone, hsome⟩ := key d.entries pairs hp
  have hnodup : (pairs.map Prod.fst).Nodup := hkeys ▸ d.nodup
  rw [get?_ofPairs, lookup_reverse hnodup]
  exact ⟨hnone, hsome⟩

end Dict

end Manus
