import Manus.Lib.Double
import Manus.Context.AttributePath

/-! # Functions of attribute expressions

Values are texts, floats and booleans, or there is no value. What Python raises is
part of the model: the conversions to an integer, the remainder and the reading of
an argument can fail, and so can the text of an integer with too many digits.
-/

namespace Manus.Expression

/-- An exception, with its message. -/
inductive PyException where
  | overflowError (message : String)
  | valueError (message : String)
  | indexError (message : String)
  | keyError (key : String)
  | regexUnavailable (code message : String)
  deriving DecidableEq

inductive Value where
  | none
  | text (text : String)
  | number (x : Double)
  | bool (b : Bool)
  deriving DecidableEq

def maxTextLength : ℕ := 1000000

section Conversions

def digitLimitMessage : String := "Exceeds the limit (4300 digits) for integer string conversion"

/-- `str(n)`. -/
def strInt (n : ℤ) : Except PyException String :=
  if maxStrDigits < (Nat.toDigits 10 n.natAbs).length then .error (.valueError digitLimitMessage)
  else .ok (toString n)

/-- `str(value)` of a scalar. -/
def strJson : Json → Except PyException String
  | .int n => strInt n
  | value => .ok (pyStr value)

mutual

def hasLongInt : Json → Bool
  | .int n => maxStrDigits < (Nat.toDigits 10 n.natAbs).length
  | .arr items => hasLongIntItems items
  | .obj fields => hasLongIntFields fields
  | _ => false

def hasLongIntItems : List Json → Bool
  | [] => false
  | item :: items => hasLongInt item || hasLongIntItems items

def hasLongIntFields : List (String × Json) → Bool
  | [] => false
  | (_, value) :: fields => hasLongInt value || hasLongIntFields fields

end

/-- `str(value)`, also of a list or an object. -/
def strAny (value : Json) : Except PyException String :=
  if hasLongInt value then .error (.valueError digitLimitMessage) else .ok (pyStr value)

/-- `int(x)`. -/
def intOf : Double → Except PyException ℤ
  | .nan => .error (.valueError "cannot convert float NaN to integer")
  | .inf _ => .error (.overflowError "cannot convert float infinity to integer")
  | .finite v _ => .ok (truncate v)

/-- Number of items of a raw value: those of a list or an object, one for a scalar or a sealed
secret, none for what is empty. -/
def countItems (raw : Json) : Except PyException ℕ :=
  if isSealedSecret raw then .ok 1
  else
    match raw with
    | .null => .ok 0
    | .arr items => .ok items.length
    | .obj fields => .ok fields.length
    | value => (strJson value).map fun text => if pyStrip text.toList = [] then 0 else 1

def toNumber : Value → Option Double
  | .none | .bool _ => Option.none
  | .number x => some x
  | .text text => (Double.ofText? (pyStrip text.toList)).filter Double.isFinite

def toText : Value → Except PyException (Option String)
  | .none => .ok Option.none
  | .bool b => .ok (some (if b then "true" else "false"))
  | .number x =>
    match x.whole? with
    | some n => (strInt n).map some
    | Option.none => .ok (some x.repr)
  | .text text => .ok (some text)

def toBool : Value → Bool
  | .bool b => b
  | .text text => spells "true" text
  | _ => false

def Value.isNumber : Value → Bool
  | .number _ => true
  | _ => false

end Conversions

section Texts

/-- The case mappings of `str`. -/
structure TextCase where
  casefold : String → String
  lower : String → String
  upper : String → String

/-- `text.count(old)`; the next characters that a match took are skipped. -/
def countText (old : List Char) : ℕ → List Char → ℕ
  | _, [] => 0
  | skip + 1, _ :: text => countText old skip text
  | 0, c :: text =>
    if old.isPrefixOf (c :: text) then countText old (old.length - 1) text + 1
    else countText old 0 text

/-- `text.replace(old, new)`. -/
def replaceText (old new : List Char) : ℕ → List Char → List Char
  | _, [] => []
  | skip + 1, _ :: text => replaceText old new skip text
  | 0, c :: text =>
    if old.isPrefixOf (c :: text) then new ++ replaceText old new (old.length - 1) text
    else c :: replaceText old new 0 text

/-- `text[start:stop]`. -/
def sliceText (text : List Char) (start stop : ℤ) : List Char :=
  let bound := fun i : ℤ => if i < 0 then (text.length + i).toNat else i.toNat
  (text.take (bound stop)).drop (bound start)

end Texts

section Implementations

/-- `args[i]`. -/
def argument (args : List Value) (i : ℕ) : Except PyException Value :=
  match args[i]? with
  | some value => .ok value
  | none => .error (.indexError "list index out of range")

def textPair (subject : Value) (args : List Value) :
    Except PyException (Option (String × String)) := do
  let left ← toText subject
  let right ← toText (← argument args 0)
  return left.bind fun left => right.map fun right => (left, right)

def numberPair (subject : Value) (args : List Value) :
    Except PyException (Option (Double × Double)) := do
  let right ← argument args 0
  return (toNumber subject).bind fun left => (toNumber right).map fun right => (left, right)

def equals (subject : Value) (args : List Value) : Except PyException Bool := do
  let other ← argument args 0
  if subject.isNumber || other.isNumber then
    let pair ← numberPair subject args
    return pair.any fun p => p.1.pyEq p.2
  else
    let pair ← textPair subject args
    return pair.any fun p => p.1 == p.2

def textPredicate (test : String → String → Bool) (subject : Value) (args : List Value) :
    Except PyException Value := do
  let pair ← textPair subject args
  return .bool (pair.any fun p => test p.1 p.2)

/-- `_in`: the candidates up to the first that equals the subject. -/
def isIn (subject : Value) (args : List Value) : Except PyException Value :=
  Value.bool <$> args.anyM fun candidate => equals subject [candidate]

def compare (test : Double → Double → Bool) (subject : Value) (args : List Value) :
    Except PyException Value := do
  let pair ← numberPair subject args
  return .bool (pair.any fun p => test p.1 p.2)

def arithmetic (op : Double → Double → Except PyException Value) (subject : Value)
    (args : List Value) : Except PyException Value := do
  match ← numberPair subject args with
  | none => return .none
  | some (left, right) => op left right

def mod (left right : Double) : Except PyException Value :=
  if right.isZero then .ok .none
  else
    match left.fmod right with
    | none => .error (.valueError "math domain error")
    | some rest => .ok (.number rest)

def textTransform (fn : String → Value) (subject : Value) : Except PyException Value := do
  match ← toText subject with
  | none => return .none
  | some text => return fn text

def join (pre : Bool) (subject : Value) (args : List Value) : Except PyException Value := do
  match ← textPair subject args with
  | none => return .none
  | some (text, other) =>
    if text.length + other.length > maxTextLength then return .none
    else return .text (if pre then other ++ text else text ++ other)

def substring (subject : Value) (args : List Value) : Except PyException Value := do
  match ← toText subject, args.mapM toNumber with
  | some text, some bounds =>
    match bounds with
    | [] => .error (.indexError "list index out of range")
    | first :: more => do
      let start ← intOf first
      let stop ← match more with
        | [] => pure (text.length : ℤ)
        | second :: _ => intOf second
      return .text (String.ofList (sliceText text.toList start stop))
  | _, _ => return .none

def replace (subject : Value) (args : List Value) : Except PyException Value := do
  match ← toText subject, ← toText (← argument args 0), ← toText (← argument args 1) with
  | some text, some old, some new =>
    -- an empty text would match between every two characters
    if old = "" then return .none
    else
      let growth : ℤ := countText old.toList 0 text.toList * ((new.length : ℤ) - old.length)
      if text.length + growth > maxTextLength then return .none
      else return .text (String.ofList (replaceText old.toList new.toList 0 text.toList))
  | _, _, _ => return .none

end Implementations

section Table

inductive ReturnType where
  | bool
  | number
  | string
  deriving DecidableEq

/-- A function: how many arguments it takes, what it returns and, for most, how it is computed. -/
structure FunctionSpec where
  minArgs : ℕ
  maxArgs : Option ℕ
  returns : ReturnType
  impl : Option (TextCase → Value → List Value → Except PyException Value) := none

/-- The functions that read whether and what the subject is. -/
def stateFunctions : List String := ["isAbsent", "isNull", "isEmpty", "exists"]

def countFunction : String := "count"

def firstOnlyFunctions : List String := countFunction :: stateFunctions

/-- The functions that ask the regex runner, and their modes. -/
def regexFunctions : List (String × String) := [("matches", "full"), ("find", "find")]

def functions : List (String × FunctionSpec) :=
  stateFunctions.map (fun name => (name, ⟨0, some 0, .bool, none⟩)) ++
  regexFunctions.map (fun p => (p.1, ⟨1, some 1, .bool, none⟩)) ++
  [(countFunction, ⟨0, some 0, .number, none⟩),
    ("equals", ⟨1, some 1, .bool, some fun _ subject args => Value.bool <$> equals subject args⟩),
    ("equalsIgnoreCase", ⟨1, some 1, .bool,
      some fun letters => textPredicate fun a b => letters.casefold a == letters.casefold b⟩),
    ("startsWith", ⟨1, some 1, .bool,
      some fun _ => textPredicate fun a b => b.toList.isPrefixOf a.toList⟩),
    ("endsWith", ⟨1, some 1, .bool,
      some fun _ => textPredicate fun a b => b.toList.isSuffixOf a.toList⟩),
    ("contains", ⟨1, some 1, .bool,
      some fun _ => textPredicate fun a b => decide (b.toList <:+: a.toList)⟩),
    ("in", ⟨1, none, .bool, some fun _ => isIn⟩),
    ("gt", ⟨1, some 1, .bool, some fun _ => compare fun a b => b.lt a⟩),
    ("ge", ⟨1, some 1, .bool, some fun _ => compare fun a b => b.le a⟩),
    ("lt", ⟨1, some 1, .bool, some fun _ => compare Double.lt⟩),
    ("le", ⟨1, some 1, .bool, some fun _ => compare Double.le⟩),
    ("toNumber", ⟨0, some 0, .number,
      some fun _ subject _ => .ok ((toNumber subject).elim .none .number)⟩),
    ("plus", ⟨1, some 1, .number, some fun _ => arithmetic fun a b => .ok (.number (a.add b))⟩),
    ("minus", ⟨1, some 1, .number, some fun _ => arithmetic fun a b => .ok (.number (a.sub b))⟩),
    ("multiply", ⟨1, some 1, .number,
      some fun _ => arithmetic fun a b => .ok (.number (a.mul b))⟩),
    ("mod", ⟨1, some 1, .number, some fun _ => arithmetic mod⟩),
    ("toLower", ⟨0, some 0, .string,
      some fun letters subject _ =>
        textTransform (fun text => .text (letters.lower text)) subject⟩),
    ("toUpper", ⟨0, some 0, .string,
      some fun letters subject _ =>
        textTransform (fun text => .text (letters.upper text)) subject⟩),
    ("trim", ⟨0, some 0, .string, some fun _ subject _ =>
      textTransform (fun text => .text (String.ofList (pyStrip text.toList))) subject⟩),
    ("length", ⟨0, some 0, .number, some fun _ subject _ =>
      textTransform (fun text => .number (Double.round text.length)) subject⟩),
    ("substring", ⟨1, some 2, .string, some fun _ => substring⟩),
    ("replace", ⟨2, some 2, .string, some fun _ => replace⟩),
    ("append", ⟨1, some 1, .string, some fun _ => join false⟩),
    ("prepend", ⟨1, some 1, .string, some fun _ => join true⟩),
    ("not", ⟨0, some 0, .bool, some fun _ subject _ => .ok (.bool !toBool subject)⟩),
    ("and", ⟨1, some 1, .bool, some fun _ subject args =>
      if toBool subject then (argument args 0).map fun a => .bool (toBool a)
      else .ok (.bool false)⟩),
    ("or", ⟨1, some 1, .bool, some fun _ subject args =>
      if toBool subject then .ok (.bool true)
      else (argument args 0).map fun a => .bool (toBool a)⟩)]

/-- `FUNCTIONS.get(name)`. -/
def functionSpec (name : String) : Option FunctionSpec := functions.lookup name

end Table

section Totality

/-- What `to_text` returns. -/
def textOf : Value → Option String
  | .none => none
  | .bool b => some (if b then "true" else "false")
  | .number x => some ((x.whole?.map toString).getD x.repr)
  | .text text => some text

theorem lt_ten_pow {n j k : ℕ} (h : n < 2 ^ j) (hk : j ≤ k) : n < 10 ^ k :=
  h.trans_le ((Nat.pow_le_pow_left (by decide) j).trans (Nat.pow_le_pow_right (by decide) hk))

theorem strInt_whole {x : Double} {n : ℤ} (h : x.whole? = some n) :
    strInt n = .ok (toString n) := by
  have hlt : n.natAbs < 10 ^ maxStrDigits := lt_ten_pow (Double.whole?_lt h) (by decide)
  have hlength := (Nat.length_toDigits_le_iff (by decide) (by decide)).mpr hlt
  rw [strInt, if_neg (by omega)]

theorem toText_eq (value : Value) : toText value = .ok (textOf value) := by
  cases value with
  | number x =>
    simp only [toText, textOf]
    cases hx : x.whole? with
    | none => rfl
    | some n =>
      simp only [strInt_whole hx]
      rfl
  | _ => rfl

variable {subject a : Value} {args : List Value}

theorem argument_cons : argument (a :: args) 0 = .ok a := rfl

theorem textPair_cons : textPair subject (a :: args) =
    .ok ((textOf subject).bind fun left => (textOf a).map fun right => (left, right)) := by
  simp only [textPair, toText_eq, argument_cons, bind, Except.bind, pure, Except.pure]

theorem numberPair_cons : numberPair subject (a :: args) =
    .ok ((toNumber subject).bind fun left => (toNumber a).map fun right => (left, right)) := rfl

theorem equals_returns : ∃ b, equals subject (a :: args) = .ok b := by
  simp only [equals, argument_cons, textPair_cons, numberPair_cons, bind, Except.bind, pure,
    Except.pure]
  split <;> exact ⟨_, rfl⟩

theorem isIn_returns : ∃ value, isIn subject args = .ok value := by
  have hany : ∃ b, args.anyM (fun candidate => equals subject [candidate]) = Except.ok b := by
    induction args with
    | nil => exact ⟨false, rfl⟩
    | cons a args ih =>
      obtain ⟨b, hb⟩ := @equals_returns subject a []
      obtain ⟨rest, hrest⟩ := ih
      simp only [List.anyM, hb, hrest, bind, Except.bind]
      cases b with
      | true => exact ⟨true, rfl⟩
      | false => exact ⟨rest, rfl⟩
  obtain ⟨b, hb⟩ := hany
  simp only [isIn, hb]
  exact ⟨.bool b, rfl⟩

theorem textTransform_returns {fn : String → Value} :
    ∃ value, textTransform fn subject = .ok value := by
  simp only [textTransform, toText_eq, bind, Except.bind, pure, Except.pure]
  split <;> exact ⟨_, rfl⟩

theorem join_returns {pre : Bool} : ∃ value, join pre subject (a :: args) = .ok value := by
  simp only [join, textPair_cons, bind, Except.bind, pure, Except.pure]
  split
  · exact ⟨_, rfl⟩
  · split <;> exact ⟨_, rfl⟩

theorem replace_returns {b : Value} : ∃ value, replace subject (a :: b :: args) = .ok value := by
  have hsecond : argument (a :: b :: args) 1 = .ok b := rfl
  simp only [replace, argument_cons, hsecond, toText_eq, bind, Except.bind, pure, Except.pure]
  split
  · split
    · exact ⟨_, rfl⟩
    · split <;> exact ⟨_, rfl⟩
  · exact ⟨_, rfl⟩

theorem textPredicate_returns {test : String → String → Bool} :
    ∃ value, textPredicate test subject (a :: args) = .ok value := by
  simp only [textPredicate, textPair_cons]
  exact ⟨_, rfl⟩

theorem compare_returns {test : Double → Double → Bool} :
    ∃ value, compare test subject (a :: args) = .ok value := ⟨_, rfl⟩

theorem arithmetic_returns {op : Double → Double → Except PyException Value} :
    (∃ value, arithmetic op subject (a :: args) = .ok value) ↔
      ∀ left right, toNumber subject = some left → toNumber a = some right →
        ∃ value, op left right = .ok value := by
  simp only [arithmetic, numberPair_cons, bind, Except.bind, pure, Except.pure]
  cases toNumber subject with
  | none => simp
  | some left =>
    cases toNumber a with
    | none => simp
    | some right => simp

/-- A number is divided that is infinite, by one that is neither zero nor undefined. -/
def DividesInfinity (subject : Value) (args : List Value) : Prop :=
  ∃ negative right, toNumber subject = some (.inf negative) ∧
    args.head?.bind toNumber = some right ∧ right.isZero = false ∧ right ≠ .nan

/-- A text is cut at bounds that are numbers, and not all of them finite. -/
def CutsAtNonFinite (subject : Value) (args : List Value) : Prop :=
  (textOf subject).isSome ∧ ∃ bounds, args.mapM toNumber = some bounds ∧
    ∃ bound ∈ bounds, bound.isFinite = false

theorem mod_returns {left right : Double} : (∃ value, mod left right = .ok value) ↔
    ¬ ∃ negative, left = .inf negative ∧ right.isZero = false ∧ right ≠ .nan := by
  cases right with
  | nan => cases left <;> simp [mod, Double.isZero, Double.fmod]
  | inf t => cases left <;> simp [mod, Double.isZero, Double.fmod]
  | finite b hb =>
    by_cases hzero : b = 0
    · simp [mod, Double.isZero, hzero]
    · cases left <;> simp [mod, Double.isZero, Double.fmod, hzero]

theorem length_mapM {α β : Type} {f : α → Option β} {l : List α} {l' : List β}
    (h : l.mapM f = some l') : l'.length = l.length := by
  induction l generalizing l' with
  | nil =>
    cases h
    rfl
  | cons a l ih =>
    simp only [List.mapM_cons, Option.bind_eq_bind, Option.bind_eq_some_iff] at h
    obtain ⟨b, -, rest, hrest, h⟩ := h
    cases h
    simp [ih hrest]

theorem substring_returns (hmin : 1 ≤ args.length) (hmax : args.length ≤ 2) :
    (∃ value, substring subject args = .ok value) ↔ ¬ CutsAtNonFinite subject args := by
  unfold CutsAtNonFinite substring
  simp only [toText_eq, bind, Except.bind, pure, Except.pure]
  cases textOf subject with
  | none => simp
  | some text =>
    cases hbounds : args.mapM toNumber with
    | none => simp
    | some bounds =>
      have hlength := length_mapM hbounds
      match bounds, hlength with
      | [], hlength => simp at hlength; omega
      | [first], _ => cases first <;> simp [intOf, Double.isFinite]
      | [first, second], _ =>
        cases first <;> cases second <;> simp [intOf, Double.isFinite]
      | _ :: _ :: _ :: _, hlength => simp at hlength; omega

/-- The number of arguments is one that the function takes. -/
def FunctionSpec.Takes (spec : FunctionSpec) (n : ℕ) : Prop :=
  spec.minArgs ≤ n ∧ ∀ m, spec.maxArgs = some m → n ≤ m

/-- The function returns, whatever its subject and its arguments are. -/
def FunctionSpec.Total (spec : FunctionSpec) : Prop :=
  ∀ impl, spec.impl = some impl → ∀ letters subject args, spec.Takes args.length →
    ∃ value, impl letters subject args = .ok value

section Entries

variable {low : ℕ} {high : Option ℕ} {returns : ReturnType}
  {impl : TextCase → Value → List Value → Except PyException Value}

theorem total_none : (FunctionSpec.mk low high returns none).Total := by
  rintro impl ⟨⟩

theorem total_any (h : ∀ letters subject args, ∃ value, impl letters subject args = .ok value) :
    (FunctionSpec.mk low high returns (some impl)).Total := by
  rintro _ ⟨⟩ letters subject args -
  exact h letters subject args

theorem total_one
    (h : ∀ letters subject a args, ∃ value, impl letters subject (a :: args) = .ok value) :
    (FunctionSpec.mk 1 high returns (some impl)).Total := by
  rintro _ ⟨⟩ letters subject args ⟨hmin, -⟩
  obtain ⟨a, args, rfl⟩ := List.exists_cons_of_length_pos hmin
  exact h letters subject a args

theorem total_two
    (h : ∀ letters subject a b args, ∃ value, impl letters subject (a :: b :: args) = .ok value) :
    (FunctionSpec.mk 2 high returns (some impl)).Total := by
  rintro _ ⟨⟩ letters subject args ⟨hmin, -⟩
  match args, hmin with
  | a :: b :: args, _ => exact h letters subject a b args

end Entries

theorem functions_total :
    ∀ p ∈ functions, p.1 ≠ "substring" → p.1 ≠ "mod" → p.2.Total := by
  have hbool : ∀ letters subject a args, ∃ value,
      (fun (_ : TextCase) subject args => Value.bool <$> equals subject args) letters subject
        (a :: args) = Except.ok value := by
    intro letters subject a args
    obtain ⟨b, hb⟩ := @equals_returns subject a args
    exact ⟨.bool b, by simp only [hb]; rfl⟩
  have harithmetic : ∀ op : Double → Double → Double, ∀ subject a args, ∃ value,
      arithmetic (fun a b => .ok (.number (op a b))) subject (a :: args) = .ok value :=
    fun op subject a args => arithmetic_returns.mpr fun left right _ _ => ⟨_, rfl⟩
  simp only [functions, stateFunctions, regexFunctions, List.map_cons, List.map_nil,
    List.cons_append, List.nil_append, List.forall_mem_cons]
  refine ⟨fun _ _ => total_none, fun _ _ => total_none, fun _ _ => total_none,
    fun _ _ => total_none, fun _ _ => total_none, fun _ _ => total_none, fun _ _ => total_none,
    fun _ _ => total_one hbool,
    fun _ _ => total_one fun _ _ _ _ => textPredicate_returns,
    fun _ _ => total_one fun _ _ _ _ => textPredicate_returns,
    fun _ _ => total_one fun _ _ _ _ => textPredicate_returns,
    fun _ _ => total_one fun _ _ _ _ => textPredicate_returns,
    fun _ _ => total_any fun _ _ _ => isIn_returns,
    fun _ _ => total_one fun _ _ _ _ => compare_returns,
    fun _ _ => total_one fun _ _ _ _ => compare_returns,
    fun _ _ => total_one fun _ _ _ _ => compare_returns,
    fun _ _ => total_one fun _ _ _ _ => compare_returns,
    fun _ _ => total_any fun _ _ _ => ⟨_, rfl⟩,
    fun _ _ => total_one fun _ => harithmetic Double.add,
    fun _ _ => total_one fun _ => harithmetic Double.sub,
    fun _ _ => total_one fun _ => harithmetic Double.mul,
    fun _ hmod => absurd rfl hmod,
    fun _ _ => total_any fun _ _ _ => textTransform_returns,
    fun _ _ => total_any fun _ _ _ => textTransform_returns,
    fun _ _ => total_any fun _ _ _ => textTransform_returns,
    fun _ _ => total_any fun _ _ _ => textTransform_returns,
    fun hsubstring _ => absurd rfl hsubstring,
    fun _ _ => total_two fun _ _ _ _ _ => replace_returns,
    fun _ _ => total_one fun _ _ _ _ => join_returns,
    fun _ _ => total_one fun _ _ _ _ => join_returns,
    fun _ _ => total_any fun _ _ _ => ⟨_, rfl⟩,
    fun _ _ => total_one fun _ subject a args => ?_,
    fun _ _ => total_one fun _ subject a args => ?_, by simp⟩
  · split <;> exact ⟨_, rfl⟩
  · split <;> exact ⟨_, rfl⟩

/-- The calls that raise. -/
def CallFails (name : String) (subject : Value) (args : List Value) : Prop :=
  name = "substring" ∧ CutsAtNonFinite subject args ∨ name = "mod" ∧ DividesInfinity subject args

theorem mem_of_lookup {name : String} {spec : FunctionSpec} (h : functionSpec name = some spec) :
    (name, spec) ∈ functions := by
  obtain ⟨before, after, hsplit, -⟩ := List.lookup_eq_some_iff.mp h
  simp [hsplit]

/-- A call with as many arguments as the function takes returns, unless it is one of the two. -/
theorem impl_returns {name : String} {spec : FunctionSpec}
    {impl : TextCase → Value → List Value → Except PyException Value} {letters : TextCase}
    (hspec : functionSpec name = some spec) (himpl : spec.impl = some impl)
    (htakes : spec.Takes args.length) :
    (∃ value, impl letters subject args = .ok value) ↔ ¬ CallFails name subject args := by
  by_cases hsubstring : name = "substring"
  · subst hsubstring
    cases hspec
    cases himpl
    have hreturns := @substring_returns subject args htakes.1 (htakes.2 2 rfl)
    simpa [CallFails] using hreturns
  · by_cases hmod : name = "mod"
    · subst hmod
      cases hspec
      cases himpl
      obtain ⟨a, rest, rfl⟩ := List.exists_cons_of_length_pos htakes.1
      rw [arithmetic_returns]
      simp only [mod_returns, CallFails, DividesInfinity, List.head?_cons, Option.bind_some]
      simp only [String.reduceEq, false_and, false_or, true_and]
      constructor
      · rintro h ⟨negative, right, hleft, hright, hzero, hnan⟩
        exact h _ right hleft hright ⟨negative, rfl, hzero, hnan⟩
      · rintro h left right hleft hright ⟨negative, rfl, hzero, hnan⟩
        exact h ⟨negative, right, hleft, hright, hzero, hnan⟩
    · have htotal := functions_total _ (mem_of_lookup hspec) hsubstring hmod
      simp only [CallFails, hsubstring, hmod, false_and, or_self, not_false_eq_true, iff_true]
      exact htotal impl himpl letters subject args htakes

end Totality

end Manus.Expression
