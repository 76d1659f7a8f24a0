import Manus.Lib.Except
import Manus.Lib.Steps
import Manus.Secrets.Redactor

/-! # Secrets stay where they were found

The origins of a token are places where its secret was found in structured data, in any
run of tokenizing. A restored value has therefore only secrets that were found at their
places, unless some secret was found under no key at all: its token has no origins, and
a token without origins is restored anywhere.
-/

namespace Manus.Redaction

section Tokens

variable {F : Type} {floats : Floats F}

theorem isDecimal_toDigits {n : ℕ} : ∀ c ∈ Nat.toDigits 10 n, isDecimal c = true := by
  intro c hc
  have hdigit : c.isDigit = true := Nat.isDigit_of_mem_toDigits (by decide) (by decide) hc
  rw [isDecimal, decimalDigit?_of_isDigit hdigit]
  rfl

theorem toDigits_ne_nil (n : ℕ) : Nat.toDigits 10 n ≠ [] :=
  List.ne_nil_of_length_pos Nat.length_toDigits_pos

theorem tokens_tokenText (number : ℕ) :
    tokens.length (tokenText number) = some (tokenText number).length := by
  refine (numberedLength_eq_some underscores_endsNumber).mpr
    ⟨Nat.toDigits 10 number, [], toDigits_ne_nil number, isDecimal_toDigits, rfl, ?_⟩
  simp only [tokenText, List.length_append, Nat.add_assoc]

theorem pieces_tokenText (number : ℕ) (rest : List Char) :
    tokens.pieces (tokenText number ++ rest) = .inr (tokenText number) :: tokens.pieces rest :=
  Matcher.pieces_append_of_match (tokens_tokenText number) rest

theorem tokenText_injective : Function.Injective tokenText := by
  intro m n h
  exact toDigits_injective (List.append_cancel_right (List.append_cancel_left h))

theorem entryFrom_tokenText (entries : List (TokenEntry floats)) (first i : ℕ) :
    entryFrom (tokenText (first + i)) first entries = entries[i]? := by
  induction entries generalizing first i with
  | nil => rfl
  | cons e entries ih =>
    cases i with
    | zero => exact if_pos rfl
    | succ i =>
      have hother : tokenText (first + (i + 1)) ≠ tokenText first :=
        fun h => absurd (tokenText_injective h) (by omega)
      have hnext : first + (i + 1) = first + 1 + i := by omega
      rw [entryFrom, if_neg hother, hnext]
      exact ih (first + 1) i

theorem entryOf_tokenText (s : Redactor floats) (i : ℕ) :
    s.entryOf (tokenText (i + 1)) = s.entries[i]? := by
  rw [Nat.add_comm]
  exact entryFrom_tokenText s.entries 1 i

theorem entryFrom_eq_some {token : List Char} {entries : List (TokenEntry floats)} {first : ℕ}
    {e : TokenEntry floats} (h : entryFrom token first entries = some e) :
    ∃ i, token = tokenText (first + i) := by
  induction entries generalizing first with
  | nil => cases h
  | cons e' entries ih =>
    rw [entryFrom] at h
    split at h
    · exact ⟨0, ‹_›⟩
    · obtain ⟨i, hi⟩ := ih h
      exact ⟨i + 1, by rw [hi, Nat.add_right_comm, Nat.add_assoc]⟩

theorem entryOf_eq_some {s : Redactor floats} {token : List Char} {e : TokenEntry floats}
    (h : s.entryOf token = some e) : ∃ i, token = tokenText (i + 1) ∧ s.entries[i]? = some e := by
  obtain ⟨i, rfl⟩ := entryFrom_eq_some h
  refine ⟨i, by rw [Nat.add_comm], ?_⟩
  rw [← entryOf_tokenText, Nat.add_comm]
  exact h

theorem tokenFor_eq (s : Redactor floats) (secret : List Char) :
    ∃ (entries : List (TokenEntry floats)) (e : TokenEntry floats),
      s.tokenFor secret = (
        { s with
          entries := s.activeKey.elim entries fun key =>
            entries.modify (s.indexOf secret) fun e => e.addOrigin (s.activeScope, key) },
        s.indexOf secret + 1) ∧
      entries[s.indexOf secret]? = some e ∧ e.secret = secret ∧
      (entries = s.entries ∨ ∃ e', e'.origins = [] ∧ entries = s.entries ++ [e']) := by
  by_cases hindex : s.indexOf secret < s.entries.length
  · have hfound := List.findIdx_getElem (w := hindex)
    refine ⟨s.entries, _, ?_, List.getElem?_eq_getElem hindex, beq_iff_eq.mp hfound, .inl rfl⟩
    cases hkey : s.activeKey <;> simp [Redactor.tokenFor, hindex, hkey]
  · have hlength : s.indexOf secret = s.entries.length :=
      Nat.le_antisymm List.findIdx_le_length (Nat.not_lt.mp hindex)
    let new : TokenEntry floats := { secret, origins := [], object := none, spells := by simp }
    refine ⟨s.entries ++ [new], new, ?_, ?_, rfl, .inr ⟨new, rfl, rfl⟩⟩
    · cases hkey : s.activeKey <;> simp [Redactor.tokenFor, hindex, hkey, new]
    · rw [hlength, List.getElem?_concat_length]

end Tokens

section Traced

variable {F : Type} {floats : Floats F} {s s' s'' : Redactor floats}

def Redactor.Traced (s s' : Redactor floats) (secrets : List (List Char)) : Prop :=
  ∀ e' ∈ s'.entries, ∀ origin ∈ e'.origins,
    (∃ e ∈ s.entries, e.secret = e'.secret ∧ origin ∈ e.origins) ∨
      e'.secret ∈ secrets ∧ origin.1 = s.activeScope ∧ s.activeKey = some origin.2

theorem Redactor.Traced.refl (s : Redactor floats) : s.Traced s [] :=
  fun e he _ horigin => .inl ⟨e, he, rfl, horigin⟩

theorem Redactor.Traced.trans {secrets secrets' : List (List Char)} (h : s.Traced s' secrets)
    (h' : s'.Traced s'' secrets') (hscope : s'.activeScope = s.activeScope)
    (hkey : s'.activeKey = s.activeKey) : s.Traced s'' (secrets ++ secrets') := by
  intro e he origin horigin
  rcases h' e he origin horigin with ⟨e', he', hsecret, horigin'⟩ | ⟨hsecret, hplace⟩
  · rw [← hsecret]
    rcases h e' he' origin horigin' with hold | ⟨hsecret', hplace⟩
    · exact .inl hold
    · exact .inr ⟨List.mem_append_left _ hsecret', hplace⟩
  · rw [hscope, hkey] at hplace
    exact .inr ⟨List.mem_append_right _ hsecret, hplace⟩

theorem TokenEntry.secret_addOrigin (e : TokenEntry floats) (origin : Option String × String) :
    (e.addOrigin origin).secret = e.secret := by
  unfold TokenEntry.addOrigin
  split <;> rfl

theorem TokenEntry.mem_of_mem_addOrigin {e : TokenEntry floats}
    {origin origin' : Option String × String} (h : origin' ∈ (e.addOrigin origin).origins) :
    origin' ∈ e.origins ∨ origin' = origin := by
  unfold TokenEntry.addOrigin at h
  split at h
  · exact .inl h
  · rcases List.mem_append.mp h with h | h
    · exact .inl h
    · exact .inr (List.mem_singleton.mp h)

theorem tokenFor_traced (s : Redactor floats) (secret : List Char) :
    s.Traced (s.tokenFor secret).1 [secret] := by
  obtain ⟨entries, e, hfor, he, hsecret, hentries⟩ := tokenFor_eq s secret
  have hold : ∀ old ∈ entries, ∀ origin ∈ old.origins, old ∈ s.entries := by
    intro old hold origin horigin
    rcases hentries with rfl | ⟨new, hnew, rfl⟩
    · exact hold
    · rcases List.mem_append.mp hold with hold | hold
      · exact hold
      · rw [List.mem_singleton.mp hold, hnew] at horigin
        cases horigin
  rw [hfor]
  intro e' he' origin horigin
  cases hkey : s.activeKey with
  | none =>
    rw [hkey] at he'
    exact .inl ⟨e', hold e' he' origin horigin, rfl, horigin⟩
  | some key =>
    rw [hkey] at he'
    obtain ⟨i, hi⟩ := List.mem_iff_getElem?.mp he'
    dsimp only [Option.elim] at hi
    rw [List.getElem?_modify] at hi
    obtain ⟨old, hi', hmodified⟩ := Option.map_eq_some_iff.mp hi
    have hmem := List.mem_of_getElem? hi'
    split at hmodified
    · -- the entry of the secret has the active place as a new origin
      rename_i hindex
      rw [← hindex, he] at hi'
      obtain rfl := Option.some.inj hi'
      rw [← hmodified] at horigin ⊢
      rw [TokenEntry.secret_addOrigin]
      rcases TokenEntry.mem_of_mem_addOrigin horigin with horigin | rfl
      · exact .inl ⟨e, hold e hmem origin horigin, rfl, horigin⟩
      · exact .inr ⟨by rw [hsecret]; exact List.mem_singleton_self _, rfl, rfl⟩
    · subst hmodified
      exact .inl ⟨old, hold old hmem origin horigin, rfl, horigin⟩

theorem replacedValues_append (log log' : List Event) :
    replacedValues (log ++ log') = replacedValues log ++ replacedValues log' :=
  List.filterMap_append

structure Redactor.Worked (s s' : Redactor floats) (log : List Event) : Prop where
  traced : s.Traced s' (replacedValues log)
  log : s'.log = s.log ++ log
  activeScope : s'.activeScope = s.activeScope
  activeKey : s'.activeKey = s.activeKey

theorem Redactor.Worked.refl (s : Redactor floats) : s.Worked s [] :=
  ⟨.refl s, (List.append_nil _).symm, rfl, rfl⟩

theorem Redactor.Worked.trans {log log' : List Event} (h : s.Worked s' log)
    (h' : s'.Worked s'' log') : s.Worked s'' (log ++ log') := by
  refine ⟨?_, ?_, h'.activeScope.trans h.activeScope, h'.activeKey.trans h.activeKey⟩
  · rw [replacedValues_append]
    exact h.traced.trans h'.traced h.activeScope h.activeKey
  · rw [h'.log, h.log, List.append_assoc]

theorem substitute_worked (spans : List (ℕ × ℕ)) (s : Redactor floats) (before : List Char)
    (position : ℕ) (text : List Char) :
    ∃ log, s.Worked (Redactor.substitute s before position spans text).1 log := by
  induction spans generalizing s before position text with
  | nil => exact ⟨[], .refl s⟩
  | cons span spans ih =>
    obtain ⟨start, stop⟩ := span
    let rest := text.drop (start - position)
    let value := rest.take (stop - start)
    have hfirst : s.Worked ((s.tokenFor value).1.note (.replaced value)) [.replaced value] :=
      ⟨tokenFor_traced s value, rfl, rfl, rfl⟩
    obtain ⟨log, hrest⟩ := ih ((s.tokenFor value).1.note (.replaced value))
      (before ++ text.take (start - position) ++ tokenText (s.tokenFor value).2) stop
      (rest.drop (stop - start))
    exact ⟨.replaced value :: log, hfirst.trans hrest⟩

theorem applyStage_worked (stages : List (List Char → List (ℕ × ℕ))) (s : Redactor floats)
    (text : List Char) : ∃ log, s.Worked (stages.foldl applyStage (s, text)).1 log := by
  induction stages generalizing s text with
  | nil => exact ⟨[], .refl s⟩
  | cons stage stages ih =>
    obtain ⟨log, hfirst⟩ := substitute_worked (stage text) s [] 0 text
    obtain ⟨log', hrest⟩ := ih (applyStage (s, text) stage).1
      (applyStage (s, text) stage).2
    exact ⟨log ++ log', hfirst.trans hrest⟩

theorem redact_worked {isWord : Char → Bool} {text redacted : List Char}
    (h : redact isWord s text = .ok (s', redacted)) : ∃ log, s.Worked s' log := by
  unfold redact at h
  dsimp only at h
  split at h
  · cases h
  · split at h
    · cases h
    · obtain ⟨rfl, -⟩ := Prod.mk.inj (Except.ok.inj h)
      obtain ⟨log, hstages⟩ := applyStage_worked (stages isWord s.known)
        { s with spent := s.spent + text.length } (mask text).1
      exact ⟨log, hstages.traced, hstages.log, hstages.activeScope, hstages.activeKey⟩

end Traced

section Found

variable {F : Type} {floats : Floats F} {isWord : Char → Bool} {s s' : Redactor floats}
  {key : Option String}

def Redactor.OriginsFound (s : Redactor floats) : Prop :=
  ∀ e ∈ s.entries, ∀ origin ∈ e.origins, .found origin.1 (some origin.2) e.secret ∈ s.log

theorem Redactor.OriginsFound.of_traced {secrets : List (List Char)} (h : s.OriginsFound)
    (htraced : ({ s with activeKey := key } : Redactor floats).Traced s' secrets)
    (hold : s.log ⊆ s'.log) (hnew : ∀ secret ∈ secrets, .found s.activeScope key secret ∈ s'.log) :
    s'.OriginsFound := by
  intro e' he' origin horigin
  rcases htraced e' he' origin horigin with ⟨e, he, hsecret, horigin⟩ | ⟨hsecret, hscope, hkey⟩
  · rw [← hsecret]
    exact hold (h e he origin horigin)
  · dsimp only at hscope hkey
    rw [hscope, ← hkey]
    exact hnew _ hsecret

theorem redactUnder_originsFound {text redacted : List Char}
    (h : s.redactUnder isWord text key = .ok (s', redacted)) (hfound : s.OriginsFound) :
    s'.OriginsFound := by
  unfold Redactor.redactUnder at h
  split at h
  · cases h
  · rename_i s₁ redacted₁ hredact
    obtain ⟨rfl, -⟩ := Prod.mk.inj (Except.ok.inj h)
    obtain ⟨log, hworked⟩ := redact_worked hredact
    have hlog : s₁.log.drop s.log.length = log := by
      rw [hworked.log]
      exact List.drop_left
    refine hfound.of_traced hworked.traced ?_ ?_
    · intro event hevent
      refine List.mem_append_left _ ?_
      rw [hworked.log]
      exact List.mem_append_left _ hevent
    · intro secret hsecret
      refine List.mem_append_right _ ?_
      rw [hlog]
      have hscope : s₁.activeScope = s.activeScope := hworked.activeScope
      rw [hscope]
      exact List.mem_map_of_mem hsecret

theorem tokenUnder_originsFound (secret : List Char) (key : Option String)
    (hfound : s.OriginsFound) : (s.tokenUnder secret key).1.OriginsFound := by
  refine hfound.of_traced (tokenFor_traced { s with activeKey := key } secret)
    (List.subset_append_left _ _) ?_
  intro secret' hsecret
  rw [List.mem_singleton.mp hsecret]
  exact List.mem_append_right _ (List.mem_singleton_self _)

theorem TokenEntry.setObject_eq (e : TokenEntry floats) (value : JsonValue (Number F)) :
    (e.setObject value).secret = e.secret ∧ (e.setObject value).origins = e.origins := by
  unfold TokenEntry.setObject
  split <;> exact ⟨rfl, rfl⟩

theorem objectToken_originsFound (value : JsonValue (Number F)) (key : Option String)
    (hfound : s.OriginsFound) : (s.objectToken value key).1.OriginsFound := by
  have htoken := tokenUnder_originsFound (value.dumpsSpaced floats.numberText) key hfound
  intro e' he' origin horigin
  obtain ⟨i, hi⟩ := List.mem_iff_getElem?.mp he'
  dsimp only [Redactor.objectToken] at hi
  rw [List.getElem?_modify] at hi
  obtain ⟨e, he, hmodified⟩ := Option.map_eq_some_iff.mp hi
  have hsame : e'.secret = e.secret ∧ e'.origins = e.origins := by
    rw [← hmodified]
    split
    · exact e.setObject_eq value
    · exact ⟨rfl, rfl⟩
  rw [hsame.1]
  rw [hsame.2] at horigin
  exact htoken e (List.mem_of_getElem? he) origin horigin

theorem textToken_originsFound (text name : String) (hfound : s.OriginsFound) :
    (s.textToken text name).1.OriginsFound :=
  tokenUnder_originsFound text.toList (some name) hfound

mutual

theorem tokenizeValue_originsFound : ∀ (value : JsonValue (Number F)) {s s' : Redactor floats}
    {key : Option String} {w : JsonValue (Number F)},
    tokenizeValue isWord s key value = .ok (s', w) → s.OriginsFound → s'.OriginsFound
  | .obj fields, s, s', key, w, h, hfound => by
    rw [tokenizeValue] at h
    split at h
    · obtain ⟨rfl, -⟩ := Prod.mk.inj (Except.ok.inj h)
      exact objectToken_originsFound (.obj fields) key hfound
    · obtain ⟨⟨s₁, ws⟩, hfields, hw⟩ := bind_eq_ok.mp h
      cases hw
      exact tokenizeFields_originsFound fields hfields hfound
  | .arr items, s, s', key, w, h, hfound => by
    rw [tokenizeValue] at h
    obtain ⟨⟨s₁, ws⟩, hitems, hw⟩ := bind_eq_ok.mp h
    cases hw
    exact tokenizeItems_originsFound items hitems hfound
  | .str text, s, s', key, w, h, hfound => by
    rw [tokenizeValue] at h
    obtain ⟨⟨s₁, redacted⟩, hredact, hw⟩ := bind_eq_ok.mp h
    cases hw
    exact redactUnder_originsFound hredact hfound
  | .null, s, s', key, w, h, hfound | .bool _, s, s', key, w, h, hfound
  | .num _, s, s', key, w, h, hfound => by
    cases h
    exact hfound

theorem tokenizeItems_originsFound : ∀ (items : List (JsonValue (Number F)))
    {s s' : Redactor floats} {key : Option String} {ws : List (JsonValue (Number F))},
    tokenizeItems isWord s key items = .ok (s', ws) → s.OriginsFound → s'.OriginsFound
  | [], s, s', key, ws, h, hfound => by
    cases h
    exact hfound
  | item :: items, s, s', key, ws, h, hfound => by
    rw [tokenizeItems] at h
    obtain ⟨⟨s₁, w⟩, hitem, h⟩ := bind_eq_ok.mp h
    obtain ⟨⟨s₂, ws'⟩, hitems, hw⟩ := bind_eq_ok.mp h
    cases hw
    exact tokenizeItems_originsFound items hitems (tokenizeValue_originsFound item hitem hfound)

theorem tokenizeFields_originsFound : ∀ (fields : List (String × JsonValue (Number F)))
    {s s' : Redactor floats} {ws : List (String × JsonValue (Number F))},
    tokenizeFields isWord s fields = .ok (s', ws) → s.OriginsFound → s'.OriginsFound
  | [], s, s', ws, h, hfound => by
    cases h
    exact hfound
  | (name, item) :: fields, s, s', ws, h, hfound => by
    rw [tokenizeFields] at h
    obtain ⟨⟨s₁, w⟩, hitem, h⟩ := bind_eq_ok.mp h
    obtain ⟨⟨s₂, ws'⟩, hfields, hw⟩ := bind_eq_ok.mp h
    cases hw
    refine tokenizeFields_originsFound fields hfields ?_
    split at hitem
    · obtain ⟨rfl, -⟩ := Prod.mk.inj (Except.ok.inj hitem)
      exact objectToken_originsFound item (some name) hfound
    · split at hitem
      · rename_i text _
        obtain ⟨rfl, -⟩ := Prod.mk.inj (Except.ok.inj hitem)
        exact textToken_originsFound text name hfound
      · exact tokenizeValue_originsFound item hitem hfound

end

/-- A call of `tokenize_data` that returns. -/
def tokenizeStep (isWord : Char → Bool) (s : Redactor floats)
    (call : Option String × JsonValue (Number F)) : Option (Redactor floats) :=
  (tokenizeData isWord s call.2 call.1).toOption.map Prod.fst

theorem tokenizeStep_originsFound {call : Option String × JsonValue (Number F)}
    (h : tokenizeStep isWord s call = some s') (hfound : s.OriginsFound) : s'.OriginsFound := by
  unfold tokenizeStep at h
  cases hdata : tokenizeData isWord s call.2 call.1 with
  | error e =>
    rw [hdata] at h
    cases h
  | ok r =>
    rw [hdata] at h
    cases h
    obtain ⟨⟨s₁, w⟩, hvalue, hw⟩ := bind_eq_ok.mp hdata
    cases hw
    have hscoped : ({ s with activeScope := call.1 } : Redactor floats).OriginsFound := hfound
    have hvalueFound : s₁.OriginsFound := tokenizeValue_originsFound call.2 hvalue hscoped
    exact hvalueFound

end Found

section Restored

variable {F : Type} {floats : Floats F} {isWord : Char → Bool} {s : Redactor floats}
  {scope key : Option String}

def Redactor.FoundAt (s : Redactor floats) (scope key : Option String) (secret : List Char) :
    Prop :=
  ∃ name, key = some name ∧ .found scope (some name) secret ∈ s.log

mutual

/-- What became of a value under a key: only tokens are replaced, and only by secrets that were
found at the same place. -/
inductive PutBack (s : Redactor floats) (scope : Option String) :
    Option String → JsonValue (Number F) → JsonValue (Number F) → Prop
  | object {key : Option String} {text : String} {e : TokenEntry floats}
      {value : JsonValue (Number F)} (he : s.entryOf text.toList = some e)
      (hvalue : e.object = some value) (hfound : s.FoundAt scope key e.secret) :
      PutBack s scope key (.str text) value
  | text {key : Option String} {text : String}
      (hfound : ∀ token e, .inr token ∈ tokens.pieces text.toList → s.entryOf token = some e →
        s.FoundAt scope key e.secret) :
      PutBack s scope key (.str text) (.str (String.ofList (s.restore text.toList)))
  | null {key : Option String} : PutBack s scope key .null .null
  | bool {key : Option String} (b : Bool) : PutBack s scope key (.bool b) (.bool b)
  | num {key : Option String} (n : Number F) : PutBack s scope key (.num n) (.num n)
  | arr {key : Option String} {items items' : List (JsonValue (Number F))}
      (h : PutBackItems s scope key items items') : PutBack s scope key (.arr items) (.arr items')
  | obj {key : Option String} {fields fields' : List (String × JsonValue (Number F))}
      (h : PutBackFields s scope fields fields') :
      PutBack s scope key (.obj fields) (.obj fields')

inductive PutBackItems (s : Redactor floats) (scope : Option String) :
    Option String → List (JsonValue (Number F)) → List (JsonValue (Number F)) → Prop
  | nil {key : Option String} : PutBackItems s scope key [] []
  | cons {key : Option String} {item item' : JsonValue (Number F)}
      {items items' : List (JsonValue (Number F))} (h : PutBack s scope key item item')
      (hitems : PutBackItems s scope key items items') :
      PutBackItems s scope key (item :: items) (item' :: items')

inductive PutBackFields (s : Redactor floats) (scope : Option String) :
    List (String × JsonValue (Number F)) → List (String × JsonValue (Number F)) → Prop
  | nil : PutBackFields s scope [] []
  | cons {name : String} {item item' : JsonValue (Number F)}
      {fields fields' : List (String × JsonValue (Number F))}
      (h : PutBack s scope (some name) item item')
      (hfields : PutBackFields s scope fields fields') :
      PutBackFields s scope ((name, item) :: fields) ((name, item') :: fields')

end

def Redactor.Restrained (s : Redactor floats) (scope : Option String) : Prop :=
  ∀ key token e, s.entryOf token = some e → s.mayRestore scope key token = true →
    s.FoundAt scope key e.secret

theorem Redactor.OriginsFound.restrained (hs : s.OriginsFound)
    (horigins : ∀ e ∈ s.entries, e.origins ≠ []) : s.Restrained scope := by
  intro key token e he hmay
  obtain ⟨i, -, hi⟩ := entryOf_eq_some he
  have hmem := List.mem_of_getElem? hi
  rw [Redactor.mayRestore, he] at hmay
  rcases Bool.or_eq_true_iff.mp hmay with hempty | hkey
  · exact absurd (List.isEmpty_iff.mp hempty) (horigins e hmem)
  · obtain ⟨name, rfl, horigin⟩ := (Option.any_eq_true _ _).mp hkey
    exact ⟨name, rfl, hs e hmem _ (of_decide_eq_true horigin)⟩

theorem restoreText_putBack (hs : s.Restrained scope) {text restored : List Char}
    (h : s.restoreText scope key text = .ok restored) : restored = s.restore text ∧
      ∀ token e, .inr token ∈ tokens.pieces text → s.entryOf token = some e →
        s.FoundAt scope key e.secret := by
  unfold Redactor.restoreText at h
  split at h
  · cases h
  · rename_i hrefused
    refine ⟨(Except.ok.inj h).symm, fun token e htoken he => ?_⟩
    have hallowed := List.filterMap_eq_nil_iff.mp hrefused _ htoken
    refine hs key token e he ?_
    by_contra hmay
    rw [Redactor.refused, if_neg hmay] at hallowed
    cases hallowed

mutual

theorem restoreData_putBack (hs : s.Restrained scope) : ∀ (y : JsonValue (Number F))
    {key : Option String} {z : JsonValue (Number F)},
    s.restoreData scope key y = .ok z → PutBack s scope key y z
  | .str text, key, z, h => by
    rw [Redactor.restoreData] at h
    split at h
    · rename_i value hobject
      obtain ⟨e, he, hvalue⟩ := Option.bind_eq_some_iff.mp hobject
      split at h
      · rename_i hmay
        rw [← Except.ok.inj h]
        exact .object he hvalue (hs key _ e he hmay)
      · cases h
    · obtain ⟨restored, htext, hz⟩ := bind_eq_ok.mp h
      obtain ⟨rfl, hfound⟩ := restoreText_putBack hs htext
      cases hz
      exact .text hfound
  | .obj fields, key, z, h => by
    rw [Redactor.restoreData] at h
    obtain ⟨fields', hfields, hz⟩ := bind_eq_ok.mp h
    cases hz
    exact .obj (restoreFields_putBack hs fields hfields)
  | .arr items, key, z, h => by
    rw [Redactor.restoreData] at h
    obtain ⟨items', hitems, hz⟩ := bind_eq_ok.mp h
    cases hz
    exact .arr (restoreItems_putBack hs items hitems)
  | .null, key, z, h => by
    cases h
    exact .null
  | .bool b, key, z, h => by
    cases h
    exact .bool b
  | .num n, key, z, h => by
    cases h
    exact .num n

theorem restoreItems_putBack (hs : s.Restrained scope) : ∀ (items : List (JsonValue (Number F)))
    {key : Option String} {items' : List (JsonValue (Number F))},
    s.restoreItems scope key items = .ok items' → PutBackItems s scope key items items'
  | [], key, items', h => by
    cases h
    exact .nil
  | item :: items, key, items', h => by
    rw [Redactor.restoreItems] at h
    obtain ⟨item', hitem, h⟩ := bind_eq_ok.mp h
    obtain ⟨items', hitems, hz⟩ := bind_eq_ok.mp h
    cases hz
    exact .cons (restoreData_putBack hs item hitem) (restoreItems_putBack hs items hitems)

theorem restoreFields_putBack (hs : s.Restrained scope) :
    ∀ (fields : List (String × JsonValue (Number F)))
    {fields' : List (String × JsonValue (Number F))}, s.restoreFields scope fields = .ok fields' →
    PutBackFields s scope fields fields'
  | [], fields', h => by
    cases h
    exact .nil
  | (name, item) :: fields, fields', h => by
    rw [Redactor.restoreFields] at h
    obtain ⟨item', hitem, h⟩ := bind_eq_ok.mp h
    obtain ⟨fields', hfields, hz⟩ := bind_eq_ok.mp h
    cases hz
    exact .cons (restoreData_putBack hs item hitem) (restoreFields_putBack hs fields hfields)

end

theorem PutBack.foundAt {i : ℕ} {e : TokenEntry floats} {z : JsonValue (Number F)}
    (hi : s.entries[i]? = some e) (h : PutBack s scope key (tokenValue (i + 1)) z) :
    s.FoundAt scope key e.secret := by
  have he : s.entryOf (String.ofList (tokenText (i + 1))).toList = some e := by
    rw [String.toList_ofList, entryOf_tokenText, hi]
  cases h with
  | object he' _ hfound =>
    rw [he] at he'
    rwa [Option.some.inj he']
  | text hfound =>
    refine hfound _ e ?_ he
    have hpieces := pieces_tokenText (i + 1) []
    rw [List.append_nil] at hpieces
    rw [String.toList_ofList, hpieces]
    exact List.mem_cons_self

theorem restoreData_of_origins_nil {i : ℕ} {e : TokenEntry floats}
    (hi : s.entries[i]? = some e) (h : e.origins = []) :
    ∃ z, s.restoreData scope key (tokenValue (i + 1)) = .ok z := by
  have he : s.entryOf (tokenText (i + 1)) = some e := by
    rw [entryOf_tokenText, hi]
  have hmay : s.mayRestore scope key (tokenText (i + 1)) = true := by
    rw [Redactor.mayRestore, he]
    simp only [h, List.isEmpty_nil, Bool.true_or]
  rw [tokenValue, Redactor.restoreData, String.toList_ofList, he]
  cases hobject : e.object with
  | some value =>
    refine ⟨value, ?_⟩
    simp only [Option.bind_some, hobject, if_pos hmay]
  | none =>
    have hpieces := pieces_tokenText (i + 1) []
    rw [List.append_nil] at hpieces
    have hrefused : (tokens.pieces (tokenText (i + 1))).filterMap (s.refused scope key) = [] := by
      rw [hpieces]
      simp [Redactor.refused, hmay, Matcher.pieces, Matcher.scan]
    refine ⟨.str (String.ofList (s.restore (tokenText (i + 1)))), ?_⟩
    simp only [Option.bind_some, hobject, Redactor.restoreText, hrefused]
    rfl

/-- After any calls of `tokenize_data`, what is restored has secrets only where they were found, if
and only if every secret was found under some key. -/
theorem secrets_notMoved {known : List (List Char)} {maxChars : ℕ}
    {calls : List (Option String × JsonValue (Number F))}
    (hrun : runSteps (tokenizeStep isWord) { known, maxChars } calls = some s) :
    (∀ scope y z, s.restoreData scope none y = .ok z → PutBack s scope none y z) ↔
      ∀ e ∈ s.entries, e.origins ≠ [] := by
  have hs : s.OriginsFound :=
    runSteps_invariant (fun _ _ _ => tokenizeStep_originsFound) hrun nofun
  constructor
  · intro h e he hnil
    obtain ⟨i, hi⟩ := List.mem_iff_getElem?.mp he
    obtain ⟨z, hz⟩ : ∃ z, s.restoreData none none (tokenValue (i + 1)) = .ok z :=
      restoreData_of_origins_nil hi hnil
    obtain ⟨name, hkey, -⟩ := (h none _ z hz).foundAt hi
    cases hkey
  · intro horigins scope y z hz
    exact restoreData_putBack (hs.restrained horigins) y hz

end Restored

section Examples

def isAsciiWord (c : Char) : Bool := c.isAlphanum || c == '_'

def cleanData : JsonValue (Number Empty) :=
  .obj [("config", .str "snmp-server community foo RO"), ("password", .str "foo")]

theorem exists_some {α : Type} {x : Option α} {P : α → Bool} (h : x.any P = true) :
    ∃ a, x = some a ∧ P a = true :=
  (Option.any_eq_true P x).mp h

def twoSteps : List (Option String × JsonValue (Number Empty)) :=
  [(some "n1", cleanData), (some "n2", .obj [("password", .str "foo")])]

theorem secrets_notMoved_twoSteps : ∃ s, runSteps (tokenizeStep isAsciiWord)
      ({ known := [], maxChars := 100 } : Redactor noFloats) twoSteps = some s ∧
    ∀ scope y z, s.restoreData scope none y = .ok z → PutBack s scope none y z := by
  obtain ⟨s, hrun, horigins⟩ := exists_some (x := runSteps (tokenizeStep isAsciiWord)
    ({ known := [], maxChars := 100 } : Redactor noFloats) twoSteps)
    (P := fun s => decide (∀ e ∈ s.entries, e.origins ≠ [])) (by decide +kernel)
  exact ⟨s, hrun, (secrets_notMoved hrun).mpr (of_decide_eq_true horigins)⟩

def bareConfig : JsonValue (Number Empty) := .arr [.str "enable secret foo"]

def message : JsonValue (Number Empty) := .obj [("message", tokenValue 1)]

/-- A secret that was found in a list of one step goes into the message of another. -/
theorem secrets_moved : ∃ s z, runSteps (tokenizeStep isAsciiWord)
      ({ known := [], maxChars := 100 } : Redactor noFloats) [(some "n1", bareConfig)] = some s ∧
    s.restoreData (some "n2") none message = .ok z ∧ ¬ PutBack s (some "n2") none message z := by
  obtain ⟨s, hrun, hs⟩ := exists_some (x := runSteps (tokenizeStep isAsciiWord)
    ({ known := [], maxChars := 100 } : Redactor noFloats) [(some "n1", bareConfig)])
    (P := fun s => s.entries[0]?.any (fun e => e.origins == [] &&
      decide (.found (some "n2") (some "message") e.secret ∉ s.log))) (by decide +kernel)
  obtain ⟨e, hi, he⟩ := (Option.any_eq_true _ _).mp hs
  obtain ⟨horigins, hlog⟩ := (Bool.and_eq_true_iff).mp he
  obtain ⟨z, hz⟩ : ∃ z, s.restoreData (some "n2") (some "message") (tokenValue 1) = .ok z :=
    restoreData_of_origins_nil hi (beq_iff_eq.mp horigins)
  refine ⟨s, .obj [("message", z)], hrun, ?_, ?_⟩
  · rw [message, Redactor.restoreData, Redactor.restoreFields, hz]
    rfl
  · intro hback
    cases hback with
    | obj hfields =>
      cases hfields with
      | cons hmessage _ =>
        obtain ⟨name, hname, hfound⟩ := hmessage.foundAt hi
        rw [← hname] at hfound
        exact of_decide_eq_true hlog hfound

end Examples

end Manus.Redaction
