import LatticeAgent.Go
import LatticeAgent.Lib.Regex
import LatticeAgent.Lib.Text

/-! # sshd's log lines

`sshwatch.go` and `failure.go`: one line of sshd's log becomes an accepted login (`parse`) or
a rejected attempt (`parseFailure`). The expressions are the source's own, piece by piece;
the part behind the user name has a name of its own. -/

namespace LatticeAgent.Sshwatch

open Text (lit cutLast)
open Regex

abbrev Str := List Char

/-- What the expressions capture. -/
inductive Field where
  | method | invalid | user | addr | program
deriving DecidableEq, Repr

/-- `net.ParseIP`, with `IP.String` of its result. What it accepts is written in hexadecimal
digits, colons and dots. -/
structure Net where
  parseIP : Str → Option String
  parseIP_text : ∀ {a : Str}, (parseIP a).isSome → a ≠ [] ∧
    ∀ c ∈ a, c.isDigit = true ∨ c ∈ "abcdefABCDEF:.".toList

/-- The class `\s`. -/
def space (c : Char) : Bool := c ∈ ['\t', '\n', '\x0c', '\r', ' ']

/-- The class `\S`. -/
def nonSpace (c : Char) : Bool := !space c

/-- The class `.`, without a newline. -/
def dot (c : Char) : Bool := c ≠ '\n'

/-! ### The framing of syslog -/

/-- The time `\d{2}:\d{2}:\d{2}`. -/
def clockRe : Regex Field :=
  cat [char Char.isDigit, char Char.isDigit, text [':'], char Char.isDigit, char Char.isDigit,
    text [':'], char Char.isDigit, char Char.isDigit]

/-- The time of RFC 3164, `[A-Z][a-z]{2} {1,2}\d{1,2} \d{2}:\d{2}:\d{2}`. -/
def bsdRe : Regex Field :=
  cat [char Char.isUpper, char Char.isLower, char Char.isLower, text [' '], opt (text [' ']),
    char Char.isDigit, opt (char Char.isDigit), text [' '], clockRe]

/-- The time of ISO 8601, `\d{4}-\d{2}-\d{2}[T ]\d{2}:\d{2}:\d{2}\S*`. -/
def isoRe : Regex Field :=
  cat [char Char.isDigit, char Char.isDigit, char Char.isDigit, char Char.isDigit, text ['-'],
    char Char.isDigit, char Char.isDigit, text ['-'], char Char.isDigit, char Char.isDigit,
    char fun c => c == 'T' || c == ' ', clockRe, many nonSpace]

/-- Behind the program: `(?:\[\d+\])?:[ \t]`. -/
def tagEnd : Regex Field :=
  cat [opt (cat [text ['['], plus Char.isDigit, text [']']]), text [':'],
    char fun c => c == ' ' || c == '\t']

/-- Behind the time: `\s+\S+\s+(\S+?)(?:\[\d+\])?:[ \t]`. -/
def hostAndTag : Regex Field :=
  cat [plus space, plus nonSpace, plus space, group .program (plusLazy nonSpace), tagEnd]

def syslogHeaderRe : Regex Field := seq (alt bsdRe isoRe) hostAndTag

/-- The text of a group, empty if it took no part in the match. -/
def captured (g : List (Field × Str)) (f : Field) : Str := (g.lookup f).getD []

/-- The program and the message; without a header all is message. -/
def splitSyslogMessage (line : Str) : Str × Str :=
  match syslogHeaderRe.find line with
  | none => ([], line)
  | some (g, message) => (captured g .program, message)

/-- `path.Base`. -/
def pathBase (path : Str) : Str :=
  if path = [] then ['.']
  else
    let path := path.rdropWhile (· == '/')
    let path := match cutLast ['/'] path with
      | some (_, last) => last
      | none => path
    if path = [] then ['/'] else path

def isSSHDProgram (program : Str) : Bool :=
  let base := pathBase (Text.trim isSpace program)
  base = lit "sshd" || (lit "sshd-").isPrefixOf base

structure LoginEvent where
  user : String
  address : String
  method : String
deriving DecidableEq, Repr

/-- The expression `^Accepted (\S+) for (?:invalid user )?(\S+) from (\S+)`. -/
def acceptedRe : Regex Field :=
  cat [text (lit "Accepted "), group .method (plus nonSpace), text (lit " for "),
    opt (text (lit "invalid user ")), group .user (plus nonSpace), text (lit " from "),
    group .addr (plus nonSpace)]

def parse (line : Str) : Option LoginEvent :=
  let (program, message) := splitSyslogMessage line
  if program ≠ [] && !isSSHDProgram program then none
  else
    (acceptedRe.find message).map fun (g, _) =>
      { method := String.ofList (captured g .method), user := String.ofList (captured g .user)
        address := String.ofList (captured g .addr) }

/-! ### Rejected attempts -/

/-- `FailureEvent`. The user is bytes: it is cut off at a number of them. -/
structure FailureEvent where
  user : Bytes
  address : String
  method : String
  invalid : Bool
  aborted : Bool
deriving DecidableEq, Repr

def maxUserLen : Nat := 96

def clampLen (s : Bytes) (max : Nat) : Bytes := if s.length ≤ max then s else s.take max

structure FailurePattern where
  re : Regex Field
  invalid : Bool
  aborted : Bool

/-- The end `(?: \[preauth\])?$`. -/
def preauthEnd : Regex Field := cat [opt (text (lit " [preauth]")), stop]

/-- The address ` from (?P<addr>\S+) port \d+ ssh2`, and what follows. -/
def fromPort (rest : List (Regex Field)) : Regex Field :=
  cat ([text (lit " from "), group .addr (plus nonSpace), text (lit " port "), plus Char.isDigit,
    text (lit " ssh2")] ++ rest)

/-- The user `(?:(?P<invalid>invalid) user )?(?P<user>.*)`, and what follows. -/
def userBefore (rest : Regex Field) : Regex Field :=
  cat [opt (cat [group .invalid (text (lit "invalid")), text (lit " user ")]),
    group .user (many dot), rest]

def failedTail : Regex Field := fromPort [opt (cat [text (lit ": "), many dot]), preauthEnd]

/-- The expression `^Failed (?P<method>\S+) for (?:(?P<invalid>invalid) user )?(?P<user>.*) from
(?P<addr>\S+) port \d+ ssh2(?:: .*)?(?: \[preauth\])?$`. -/
def failedRe : Regex Field :=
  cat [text (lit "Failed "), group .method (plus nonSpace), text (lit " for "),
    userBefore failedTail]

/-- The end `(?: port \d+)?$`. -/
def portEnd : Regex Field := cat [opt (cat [text (lit " port "), plus Char.isDigit]), stop]

def invalidTail : Regex Field :=
  cat [text (lit " from "), group .addr (plus nonSpace), portEnd]

/-- The expression `^Invalid user (?P<user>.*) from (?P<addr>\S+)(?: port \d+)?$`. -/
def invalidRe : Regex Field :=
  cat [text (lit "Invalid user "), group .user (many dot), invalidTail]

def droppedTail : Regex Field :=
  cat [text [' '], group .addr (plus nonSpace), text (lit " port "), plus Char.isDigit, preauthEnd]

/-- How the peer went away, `(?:Connection (?:closed|reset) by|Disconnected from)`. -/
def departureRe : Regex Field :=
  alt (cat [text (lit "Connection "), alt (text (lit "closed")) (text (lit "reset")),
    text (lit " by")]) (text (lit "Disconnected from"))

/-- Which kind of account, `(?:(?P<invalid>invalid)|authenticating)`. -/
def accountRe : Regex Field :=
  alt (group .invalid (text (lit "invalid"))) (text (lit "authenticating"))

/-- The expression `^(?:Connection (?:closed|reset) by|Disconnected from)
(?:(?P<invalid>invalid)|authenticating) user (?P<user>.*) (?P<addr>\S+) port
\d+(?: \[preauth\])?$`. -/
def droppedRe : Regex Field :=
  cat [departureRe, text [' '], accountRe, text (lit " user "), group .user (many dot), droppedTail]

def exceededTail : Regex Field := fromPort [preauthEnd]

/-- The expression `^error: maximum authentication attempts exceeded for (?:(?P<invalid>invalid) user
)?(?P<user>.*) from (?P<addr>\S+) port \d+ ssh2(?: \[preauth\])?$`. -/
def exceededRe : Regex Field :=
  cat [text (lit "error: maximum authentication attempts exceeded for "), userBefore exceededTail]

def failurePatterns : List FailurePattern :=
  [⟨failedRe, false, false⟩, ⟨invalidRe, true, false⟩, ⟨droppedRe, false, true⟩,
    ⟨exceededRe, false, false⟩]

def FailurePattern.event (net : Net) (p : FailurePattern) (g : List (Field × Str)) :
    Option FailureEvent :=
  (net.parseIP (captured g .addr)).map fun address =>
    { user := clampLen (utf8 (String.ofList (captured g .user))) maxUserLen
      address := address, method := String.ofList (captured g .method)
      invalid := p.invalid || captured g .invalid ≠ [], aborted := p.aborted }

/-- The first pattern that matches decides. -/
def parseFailure (net : Net) (line : Str) : Option FailureEvent :=
  let (program, message) := splitSyslogMessage line
  if program ≠ [] && !isSSHDProgram program then none
  else
    (failurePatterns.findSome? fun p => (p.re.find message).map fun m => (p, m.1)).bind fun (p, g) =>
      p.event net g

end LatticeAgent.Sshwatch
