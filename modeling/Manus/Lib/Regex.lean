import Manus.Lib.Digits

/-! # Regular expressions with backtracking

An expression has, at a place of a text, a list of matches in the order in which
backtracking tries them; the first one counts. One group is captured.
-/

namespace Manus

inductive Regex where
  | empty
  | char (p : Char → Bool)
  /-- `\b` -/
  | wordBoundary (isWord : Char → Bool)
  /-- `^` of a multi-line expression. -/
  | lineStart
  | seq (r s : Regex)
  | alt (r s : Regex)
  /-- Repetition, with or without an upper bound; a lazy one tries the fewest first. -/
  | rep (r : Regex) (atLeast : ℕ) (atMost : Option ℕ) (isLazy : Bool)
  /-- Only the first match counts: `(?>r)`. -/
  | atomic (r : Regex)
  /-- `(?=r)` -/
  | ahead (r : Regex)
  /-- `(?!r)` -/
  | notAhead (r : Regex)
  /-- `(?P<s>r)` -/
  | group (r : Regex)

namespace Regex

/-- A place in a text, and the group captured so far: how much was left where it begins and where
it ends. -/
structure Place where
  last : Option Char
  rest : List Char
  group : Option (ℕ × ℕ) := none

/-- Matches of a repetition of at most so many times, at least so many times. -/
def repeatFrom (step : Place → List Place) (isLazy : Bool) : ℕ → ℕ → Place → List Place
  | 0, atLeast, place => if atLeast = 0 then [place] else []
  | n + 1, atLeast, place =>
    let more := (step place).flatMap (repeatFrom step isLazy n (atLeast - 1))
    if 0 < atLeast then more else if isLazy then place :: more else more ++ [place]

/-- Where the matches end that begin at a place. A repetition without a bound is one of at most as
many times as there are characters left. -/
def run : Regex → Place → List Place
  | empty, place => [place]
  | char p, place =>
    match place.rest with
    | c :: rest => if p c then [{ place with last := some c, rest }] else []
    | [] => []
  | wordBoundary isWord, place =>
    if place.last.any isWord = place.rest.head?.any isWord then [] else [place]
  | lineStart, place => if place.last.all fun c => c == '\n' then [place] else []
  | seq r s, place => (run r place).flatMap (run s)
  | alt r s, place => run r place ++ run s place
  | rep r atLeast atMost isLazy, place =>
    repeatFrom (run r) isLazy (atMost.getD place.rest.length) atLeast place
  | atomic r, place => (run r place).take 1
  | ahead r, place => if (run r place).isEmpty then [] else [place]
  | notAhead r, place => if (run r place).isEmpty then [place] else []
  | group r, place =>
    (run r place).map fun stop =>
      { stop with group := some (place.rest.length, stop.rest.length) }

/-- The stretches that the group captures in the matches of a text, one after another, from a
position on; some characters belong to the last match. Every match has a character and a group. -/
def captures (r : Regex) : ℕ → ℕ → Option Char → List Char → List (ℕ × ℕ)
  | _, _, _, [] => []
  | skip + 1, position, _, c :: text => captures r skip (position + 1) (some c) text
  | 0, position, last, c :: text =>
    match (r.run { last, rest := c :: text }).head? with
    | some { rest, group := some (start, stop), .. } =>
      let stretch := (position + (text.length + 1 - start), position + (text.length + 1 - stop))
      stretch :: captures r (text.length - rest.length) (position + 1) (some c) text
    | _ => captures r 0 (position + 1) (some c) text

/-- The expression matches somewhere in a text, after some character. -/
def found (r : Regex) : Option Char → List Char → Bool
  | last, [] => !(r.run { last, rest := [] }).isEmpty
  | last, c :: text => !(r.run { last, rest := c :: text }).isEmpty || found r (some c) text

section Writing

def concat (parts : List Regex) : Regex := parts.foldr seq empty

def oneOf : List Regex → Regex
  | [] => notAhead empty
  | [r] => r
  | r :: rs => alt r (oneOf rs)

def many (r : Regex) : Regex := rep r 0 none false

def many1 (r : Regex) : Regex := rep r 1 none false

def optional (r : Regex) : Regex := rep r 0 (some 1) false

/-- The small letter that a character is matched as when case is ignored. Besides the letters of
ASCII these are the long s, the Kelvin sign and the i with and without a dot. -/
def foldCase (c : Char) : Char :=
  if c.toNat = 0x17f then 's'
  else if c.toNat = 0x212a then 'k'
  else if c.toNat = 0x130 ∨ c.toNat = 0x131 then 'i'
  else c.toLower

/-- A word in small letters, whatever its case. -/
def word (text : String) : Regex :=
  concat (text.toList.map fun letter => char fun c => foldCase c == letter)

end Writing

example : (concat [word "key", char (· == ' '), group (many1 (char (· != ' ')))]).captures 0 0 none
    "a KEY b c".toList = [(6, 7)] := by decide

end Regex

end Manus
