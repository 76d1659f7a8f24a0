import Manus.Context.Guards
import Manus.Lib.Pieces
import Manus.Lib.Regex

/-! # The patterns of secrets

Each pattern captures the secret in a line of a configuration, of an assignment or of
a header. Case is ignored, and `^` stands at the beginning of every line. Which
characters are letters or digits of a word is taken from the Unicode database.
-/

namespace Manus.Redaction

open Regex

/-- A secret keyword is found within this many characters of its anchor. -/
def lineScan : ℕ := 200

def isBlank (c : Char) : Bool := c == ' ' || c == '\t'

/-- `[ \t]+` -/
def blanks : Regex := many1 (char isBlank)

/-- `[ \t]*` -/
def optionalBlanks : Regex := many (char isBlank)

/-- `\S+` -/
def nonSpaces : Regex := many1 (char fun c => !isPySpace c)

/-- `\d` -/
def digit : Regex := char isDecimal

/-- `[^\n]{0,most}?` -/
def restOfLine (most : ℕ) : Regex := rep (char (· != '\n')) 0 (some most) true

def isLetterOrDigit (c : Char) : Bool := (foldCase c).isLower || c.isDigit

/-- `_V` -/
def value : Regex := group (seq (notAhead (char (· == '{'))) nonSpaces)

/-- A captured value that is in a class, with a look at its first character. -/
def valueOf (isFirst isInside : Char → Bool) : Regex :=
  group (seq (notAhead (char fun c => !isFirst c)) (many1 (char isInside)))

/-- `_TYPE` -/
def type : Regex :=
  atomic (optional (concat [blanks, oneOf [char Char.isDigit, word "sha512", word "sha256"],
    ahead (char isBlank)]))

/-- `_NUM` -/
def num : Regex := atomic (optional (concat [blanks, many1 digit, ahead (char isBlank)]))

/-- `(?:[ \t]+\d)?` -/
def optionalDigit : Regex := optional (seq blanks digit)

/-- The value of an assignment: it begins neither an expression nor another kind of value. -/
def assigned : Regex :=
  concat [optionalBlanks, char (fun c => c == ':' || c == '='), optionalBlanks,
    optional (char fun c => c == '"' || c == '\''),
    valueOf (fun c => c != '{' && c != '}' && c != '%')
      fun c => !isPySpace c && c != '"' && c != '\'']

section Patterns

variable (isWord : Char → Bool)

/-- `\b` and a word. -/
def anchored (text : String) : Regex := seq (wordBoundary isWord) (word text)

/-- `_PATTERNS` -/
def patterns : List (String × Regex) :=
  [("enable", concat [anchored isWord "enable", blanks, oneOf [word "secret", word "password"],
      type, blanks, value]),
    ("username", concat [anchored isWord "username", blanks, nonSpaces, blanks,
      optional (seq (restOfLine lineScan) (char isBlank)),
      oneOf [word "password", word "secret"], type, blanks, value]),
    ("aaa-server-key", concat [wordBoundary isWord, oneOf [word "tacacs", word "radius"],
      word "-server", wordBoundary isWord, restOfLine lineScan, char isBlank, word "key", type,
      blanks, value]),
    ("server-block-key", concat [lineStart, blanks, word "key", blanks, digit, blanks, value]),
    ("key-string", concat [anchored isWord "key-string", optionalDigit, blanks, value]),
    ("snmp-community", concat [anchored isWord "snmp-server", blanks, word "community", blanks,
      value]),
    ("snmp-v3-auth", concat [anchored isWord "auth", blanks,
      oneOf [word "md5", seq (word "sha") (many (char isWord))], blanks, value]),
    ("snmp-v3-priv", concat [anchored isWord "priv", blanks,
      oneOf [word "des", word "3des", word "aes"], num, blanks, value]),
    ("message-digest-key", concat [anchored isWord "message-digest-key", blanks, many1 digit,
      blanks, word "md5", optionalDigit, blanks, value]),
    ("authentication-key", concat [anchored isWord "authentication-key", num,
      optional (seq blanks (word "md5")), type, blanks, value]),
    ("hsrp-authentication", concat [anchored isWord "standby", blanks, many1 digit, blanks,
      word "authentication", blanks,
      optional (oneOf [concat [word "md5", blanks, word "key-string", optionalDigit, blanks],
        seq (word "text") blanks]), value]),
    ("isakmp-key", concat [anchored isWord "isakmp", blanks, word "key", type, blanks, value]),
    ("neighbor-password", concat [anchored isWord "neighbor", blanks, nonSpaces, blanks,
      word "password", type, blanks, value]),
    ("pre-shared-key", concat [anchored isWord "pre-shared-key",
      many (seq blanks (oneOf [word "local", word "remote", word "hexadecimal", word "ascii-text",
        word "ascii"])), type, blanks, optional (char (· == '"')),
      valueOf (fun c => c != '{' && c != '"') fun c => !isPySpace c && c != '"' && c != ';']),
    ("ppp-password", concat [anchored isWord "ppp", blanks, oneOf [word "chap", word "pap"], blanks,
      word "password", type, blanks, value]),
    ("wpa-psk", concat [anchored isWord "wpa-psk",
      optional (seq blanks (oneOf [word "ascii", word "hex"])), type, blanks, value]),
    ("quoted-secret", concat [wordBoundary isWord, oneOf [word "encrypted-password",
      word "authentication-key", word "simple-password", word "secret", word "md5"], blanks,
      char (· == '"'), valueOf (fun c => c != '{' && c != '}' && c != '%')
        fun c => c != '"' && c != '\n', char (· == '"')]),
    ("junos-community", concat [anchored isWord "community", blanks,
      group (many1 (char fun c => isLetterOrDigit c || c == '_' || c == '.' || c == '-')),
      optionalBlanks, char (· == '{')]),
    ("line-password", concat [lineStart, optionalBlanks, word "password", optionalDigit, blanks,
      value]),
    ("assignment", concat [wordBoundary isWord, oneOf [word "password", word "passwd",
      word "secret", word "token",
      concat [word "api", optional (char fun c => c == '_' || c == '-'), word "key"],
      word "passphrase"], wordBoundary isWord, assigned]),
    ("snmp-host", concat [anchored isWord "snmp-server", blanks, word "host", blanks, nonSpaces,
      blanks, optional (seq (restOfLine 60) (char isBlank)), word "version", blanks,
      oneOf [word "1", word "2c"], blanks, value]),
    ("ftp-http-password", concat [anchored isWord "ip", blanks,
      oneOf [word "ftp", concat [word "http", blanks, word "client"]], blanks, word "password",
      type, blanks, value]),
    ("fortios-enc", concat [anchored isWord "set", blanks, oneOf [word "psksecret", word "password",
      word "passwd", word "secret", word "key"], blanks, word "enc", blanks, value]),
    ("junos-set-community", concat [anchored isWord "set", blanks, word "snmp", blanks,
      word "community", blanks, value]),
    ("aruba-mgmt-user", concat [anchored isWord "mgmt-user", blanks, nonSpaces, blanks, nonSpaces,
      blanks, value]),
    ("set-key", concat [anchored isWord "set-key", blanks, oneOf [word "ascii", word "hex"], blanks,
      digit, blanks, value]),
    ("env-secret-name", concat [wordBoundary isWord,
      rep (char fun c => isLetterOrDigit c || c == '_') 0 (some 60) false,
      oneOf [word "_key", word "_pw", word "_pass", word "_passwd", word "_psk", word "_community",
        word "_secret", word "_password"], assigned]),
    ("auth-header", concat [wordBoundary isWord, oneOf [word "bearer", word "basic"], blanks,
      group (rep (char fun c => isLetterOrDigit c || c ∈ "._~+/=-".toList) 8 none false)])]

end Patterns

end Manus.Redaction
