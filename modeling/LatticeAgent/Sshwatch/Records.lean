import LatticeAgent.Sshwatch.Parser

/-! # What sshd and syslog write

`Rejection` is a record of sshd about a rejected attempt, with the user before the address;
`Header` is what syslog puts in front of it. -/

namespace LatticeAgent.Sshwatch

open Text (lit)

/-! ### What sshd writes -/

/-- How a peer went away. -/
inductive Departure where
  | closed | reset | disconnected
deriving DecidableEq, Repr

def Departure.text : Departure → Str
  | .closed => lit "Connection " ++ (lit "closed" ++ lit " by")
  | .reset => lit "Connection " ++ (lit "reset" ++ lit " by")
  | .disconnected => lit "Disconnected from"

/-- The records of a rejected attempt. Ports are numbers, everything else is text. -/
inductive Rejection where
  | failed (method : Str) (invalid : Bool) (user addr : Str) (port : Nat) (key : Option Str)
  | invalidUser (user addr : Str) (port : Option Nat)
  | dropped (how : Departure) (invalid : Bool) (user addr : Str) (port : Nat) (preauth : Bool)
  | exceeded (invalid : Bool) (user addr : Str) (port : Nat) (preauth : Bool)
deriving DecidableEq, Repr

def invalidWord : Bool → Str
  | true => lit "invalid" ++ lit " user "
  | false => []

def preauthText : Bool → Str
  | true => lit " [preauth]"
  | false => []

def keyText : Option Str → Str
  | some key => lit ": " ++ key
  | none => []

def portText : Option Nat → Str
  | some port => lit " port " ++ Nat.toDigits 10 port
  | none => []

/-- The words ` from <addr> port <port> ssh2`, and what follows. -/
def fromText (addr : Str) (port : Nat) (rest : Str) : Str :=
  lit " from " ++ (addr ++ (lit " port " ++ (Nat.toDigits 10 port ++ (lit " ssh2" ++ rest))))

/-- The words ` <addr> port <port>`, with or without ` [preauth]`. -/
def droppedText (addr : Str) (port : Nat) (preauth : Bool) : Str :=
  [' '] ++ (addr ++ (lit " port " ++ (Nat.toDigits 10 port ++ preauthText preauth)))

namespace Rejection

def addr : Rejection → Str
  | failed _ _ _ addr _ _ => addr
  | invalidUser _ addr _ => addr
  | dropped _ _ _ addr _ _ => addr
  | exceeded _ _ addr _ _ => addr

def text : Rejection → Str
  | failed method invalid user addr port key =>
    lit "Failed " ++ (method ++ (lit " for " ++
      (invalidWord invalid ++ (user ++ fromText addr port (keyText key)))))
  | invalidUser user addr port =>
    lit "Invalid user " ++ (user ++ (lit " from " ++ (addr ++ portText port)))
  | dropped how invalid user addr port preauth =>
    how.text ++ ([' '] ++ ((if invalid then lit "invalid" else lit "authenticating") ++
      (lit " user " ++ (user ++ droppedText addr port preauth))))
  | exceeded invalid user addr port preauth =>
    lit "error: maximum authentication attempts exceeded for " ++
      (invalidWord invalid ++ (user ++ fromText addr port (preauthText preauth)))

/-- The address is one, and the user is on one line. A method is a word; a key is on the
same line, and does not name another source, not even with its first word. -/
def Written (net : Net) : Rejection → Prop
  | failed method _ user addr _ key =>
    '\n' ∉ user ∧ (net.parseIP addr).isSome ∧ (method ≠ [] ∧ ∀ c ∈ method, nonSpace c = true) ∧
      ∀ k, key = some k → '\n' ∉ k ∧ ¬ lit " from " <:+: k ∧ ¬ lit "from " <+: k
  | invalidUser user addr _ => '\n' ∉ user ∧ (net.parseIP addr).isSome
  | dropped _ _ user addr _ _ => '\n' ∉ user ∧ (net.parseIP addr).isSome
  | exceeded _ user addr _ _ => '\n' ∉ user ∧ (net.parseIP addr).isSome

end Rejection

/-! ### What syslog writes -/

/-- A character of a kind. -/
abbrev Of (p : Char → Bool) := { c : Char // p c = true }

abbrev Digit := Of Char.isDigit

/-- The time of a day, `hh:mm:ss`. -/
structure Clock where
  h₁ : Digit
  h₂ : Digit
  m₁ : Digit
  m₂ : Digit
  s₁ : Digit
  s₂ : Digit

def Clock.text (t : Clock) : Str :=
  [t.h₁.1, t.h₂.1, ':', t.m₁.1, t.m₂.1, ':', t.s₁.1, t.s₂.1]

/-- The time in front of a line: the month, the day with or without its tens, and the time;
or the date with four digits of the year, the time, and a fraction and a zone. -/
inductive Stamp where
  | bsd (month : Of Char.isUpper × Of Char.isLower × Of Char.isLower) (tens : Option Digit)
      (day : Digit) (clock : Clock)
  | iso (year : Digit × Digit × Digit × Digit) (month day : Digit × Digit) (separated : Bool)
      (clock : Clock) (zone : List (Of nonSpace))

def Stamp.text : Stamp → Str
  | .bsd month tens day clock =>
    [month.1.1, month.2.1.1, month.2.2.1, ' ', (tens.map Subtype.val).getD ' ', day.1, ' '] ++
      clock.text
  | .iso year month day separated clock zone =>
    [year.1.1, year.2.1.1, year.2.2.1.1, year.2.2.2.1, '-', month.1.1, month.2.1, '-', day.1.1,
      day.2.1, if separated then 'T' else ' '] ++ (clock.text ++ zone.map Subtype.val)

/-- A header written for sshd: when, on which host, by which program and process. -/
structure Header where
  stamp : Stamp
  host : Str
  program : Str
  pid : Option Nat
  host_word : host ≠ [] ∧ ∀ c ∈ host, nonSpace c = true
  program_word : ∀ c ∈ program, nonSpace c = true ∧ c ≠ '['
  program_sshd : isSSHDProgram program = true

def pidText : Option Nat → Str
  | some pid => ['['] ++ (Nat.toDigits 10 pid ++ [']'])
  | none => []

def Header.text (h : Header) : Str :=
  h.stamp.text ++ ([' '] ++ (h.host ++ ([' '] ++ (h.program ++ (pidText h.pid ++ [':', ' '])))))

/-- A record stands alone, or behind a header. -/
def framed : Option Header → Str → Str
  | none, message => message
  | some h, message => h.text ++ message

end LatticeAgent.Sshwatch
