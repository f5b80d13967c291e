import LatticeAgent.Singboxlog.Parser

/-! # What sing-box logs

The messages of `parse.go` as values, and the texts sing-box writes for them. `Readable`
says of each value which texts its fields must not contain for its message to be read back:
the separators of the message itself, and those of a message whose case the parser tries
before it. -/

namespace LatticeAgent.Singboxlog

open Trace (Line Event TagKind Direction)
open Text (lit)

/-- A `Socksaddr`: a host, with a port or without one. -/
structure Address where
  host : Str
  port : Option Nat
deriving DecidableEq

/-- `host:port`; a host with a colon stands in brackets. -/
def Address.text (a : Address) : Str :=
  (if ':' ∈ a.host then '[' :: (a.host ++ [']']) else a.host) ++
    match a.port with
    | some n => ':' :: Nat.toDigits 10 n
    | none => []

structure Address.Readable (a : Address) : Prop where
  host : ':' ∉ a.host → a.host.head? ≠ some '['
  port : ∀ n, a.port = some n → n ≤ 65535

/-- `l.DstHost` and `l.DstPort`. -/
def Address.dst (a : Address) (l : Line) : Line :=
  { l with dstHost := String.ofList a.host, dstPort := (a.port.getD 0 : Nat) }

/-- `l.SrcIP` and `l.SrcPort`. -/
def Address.src (a : Address) (l : Line) : Line :=
  { l with srcIP := String.ofList a.host, srcPort := (a.port.getD 0 : Nat) }

/-! ### The parts in front of the message -/

/-- The three forms of `FormatDuration`, or any text. -/
inductive Elapsed where
  | millis (n : Nat)
  | seconds (s c : Nat)
  | minutes (m s : Nat)
  | text (t : Str)
deriving DecidableEq

def Elapsed.render : Elapsed → Str
  | .millis n => Nat.toDigits 10 n ++ lit "ms"
  | .seconds s c => Nat.toDigits 10 s ++ '.' :: (Nat.toDigits 10 c ++ ['s'])
  | .minutes m s => Nat.toDigits 10 m ++ 'm' :: (Nat.toDigits 10 s ++ ['s'])
  | .text t => t

/-- The milliseconds meant. A text of another form means what the parser makes of it, and
zero if that is nothing. -/
def Elapsed.ms (std : Std) : Elapsed → Int
  | .millis n => n
  | .seconds s c => (s * 1000 + c * 10 : Nat)
  | .minutes m s => ((m * 60 + s) * 1000 : Nat)
  | .text t => (parseElapsedMS std t).getD 0

/-- The form `FormatDuration` gives a duration of so many milliseconds. -/
def Elapsed.ofMS (d : Nat) : Elapsed :=
  if d < 1000 then .millis d
  else if d < 60000 then .seconds (d / 1000) (d / 10 % 100)
  else .minutes (d / 60000) (d / 1000 % 60)

/-- The milliseconds to which a form is exact. -/
def Elapsed.resolution (d : Nat) : Nat := if d < 1000 then 1 else if d < 60000 then 10 else 1000

/-- Seconds have hundredths, every form fits its integer, and no text ends the bracket. -/
def Elapsed.Readable : Elapsed → Prop
  | .millis n => n < 2 ^ 63
  | .seconds s c => c < 100 ∧ s * 1000 + c * 10 < 2 ^ 63
  | .minutes m s => m * 60 + s ≤ 9223372036
  | .text t => ']' ∉ t

inductive Family where
  | inbound | outbound | dns
deriving DecidableEq

def Family.word : Family → Str
  | .inbound => lit "inbound"
  | .outbound => lit "outbound"
  | .dns => lit "dns"

inductive Tag where
  | named (family : Family) (type name : Str)
  | router | connection | dns
deriving DecidableEq

def Tag.text : Tag → Str
  | .named family type name => family.word ++ '/' :: (type ++ '[' :: (name ++ [']']))
  | .router => lit "router"
  | .connection => lit "connection"
  | .dns => lit "dns"

def Tag.kind : Tag → TagKind
  | .named .inbound _ _ => .inbound
  | .named .outbound _ _ => .outbound
  | .named .dns _ _ => .dns
  | .router => .router
  | .connection => .connection
  | .dns => .dns

def Tag.type : Tag → Str
  | .named _ type _ => type
  | _ => []

def Tag.name : Tag → Str
  | .named _ _ name => name
  | _ => []

/-- No white space that ends a tag (so no `: ` either), and a type that ends at its bracket. -/
structure Tag.Readable (t : Tag) : Prop where
  space : ∀ c ∈ t.text, c ≠ ' ' ∧ c ≠ '\t'
  type : '[' ∉ t.type

/-! ### Messages -/

/-- The action of a rule: a text, or a name with arguments, of which `route` and `bypass`
have the outbound first. -/
inductive Action where
  | plain (t : Str)
  | call (name first : Str) (more : Option Str)
deriving DecidableEq

def Action.args : Str → Option Str → Str
  | first, none => first
  | first, some more => first ++ ',' :: more

def Action.text : Action → Str
  | .plain t => t
  | .call name first more => name ++ '(' :: (args first more ++ [')'])

def Action.Readable : Action → Prop
  | .plain t => ¬ (t.getLast? = some ')' ∧ '(' ∈ t)
  | .call name first _ => '(' ∉ name ∧ ',' ∉ first

/-- `l.Action` and `l.Outbound`. -/
def Action.fill (l : Line) : Action → Line
  | .plain t => { l with action := String.ofList t }
  | .call name first _ =>
    if name = lit "route" ∨ name = lit "bypass" then
      { l with action := String.ofList name, outbound := String.ofList first }
    else { l with action := String.ofList name }

/-- How one half of a connection ended. -/
inductive Ending where
  | finished
  | closed (err : Option Str)
  | handshake (err : Option Str)
deriving DecidableEq

/-- The messages `parse.go` models. -/
inductive Message where
  | inboundFrom (user : Option Str) (packet : Bool) (src : Address)
  | inboundTo (user : Option Str) (packet : Bool) (dst : Address)
  | outboundTo (packet : Bool) (dst : Address)
  | ruleMatch (pre : Bool) (index : Nat) (rule : Option Str) (action : Action)
  | sniffed (protocol : Str) (domain : Option Str)
  | dialFailed (packet : Bool) (dst : Address) (outbound : Option (Str × Str)) (err : Str)
  | processFailed (src : Address) (err : Str)
  | upload (ending : Ending)
  | download (ending : Ending)
  | connectionClosed (err : Option Str)
  | lookupDomain (domain : Str)
  | lookupSucceed (domain : Str) (addresses : List Str)
  | lookupFailed (domain err : Str)
deriving DecidableEq

def packetWord : Bool → Str
  | true => lit "packet "
  | false => []

/-- `<word>` or `<word>: <err>`. -/
def withCause (word : Str) : Option Str → Str
  | none => word
  | some err => word ++ (lit ": " ++ err)

def Ending.text : Ending → Str
  | .finished => lit "finished"
  | .closed err => withCause (lit "closed") err
  | .handshake err => withCause (lit "handshake") err

/-- The rule's text, if it has one, and its action. -/
def ruleText : Option Str → Action → Str
  | some rule, action => rule ++ (lit " => " ++ action.text)
  | none, action => lit "=> " ++ action.text

def sniffedText : Str → Option Str → Str
  | protocol, some domain => protocol ++ (lit ", " ++ (lit "domain: " ++ domain))
  | protocol, none => protocol

/-- Where to, by which outbound if it is named, and why not. -/
def dialText (dst : Address) : Option (Str × Str) → Str → Str
  | some (type, name), err =>
    dst.text ++
      (lit " using outbound/" ++ ((type ++ '[' :: (name ++ [']'])) ++ (lit ": " ++ err)))
  | none, err => dst.text ++ (lit ": " ++ err)

namespace Message

/-- The authenticated user in front of an inbound's message. -/
def user : Message → Option Str
  | inboundFrom user _ _ => user
  | inboundTo user _ _ => user
  | _ => none

/-- The message behind the user. -/
def body : Message → Str
  | inboundFrom _ packet src =>
    lit "inbound " ++ (packetWord packet ++ (lit "connection from " ++ src.text))
  | inboundTo _ packet dst =>
    lit "inbound " ++ (packetWord packet ++ (lit "connection to " ++ dst.text))
  | outboundTo packet dst =>
    lit "outbound " ++ (packetWord packet ++ (lit "connection to " ++ dst.text))
  | ruleMatch pre index rule action =>
    (if pre then lit "pre-match[" else lit "match[") ++
      (Nat.toDigits 10 index ++ (lit "] " ++ ruleText rule action))
  | sniffed protocol domain => lit "sniffed protocol: " ++ sniffedText protocol domain
  | dialFailed packet dst outbound err =>
    lit "open " ++ (packetWord packet ++ (lit "connection to " ++ dialText dst outbound err))
  | processFailed src err =>
    lit "process connection from " ++ (src.text ++ (lit ": " ++ err))
  | upload ending => lit "connection " ++ (lit "upload " ++ ending.text)
  | download ending => lit "connection " ++ (lit "download " ++ ending.text)
  | connectionClosed err => lit "connection " ++ withCause (lit "closed") err
  | lookupDomain domain => lit "lookup " ++ (lit "domain " ++ domain)
  | lookupSucceed domain addresses =>
    lit "lookup " ++ (lit "succeed for " ++ (domain ++ (lit ": " ++ [' '].intercalate addresses)))
  | lookupFailed domain err =>
    lit "lookup " ++ (lit "failed for " ++ (domain ++ (lit ": " ++ err)))

def text (m : Message) : Str :=
  match m.user with
  | some user => '[' :: (user ++ (lit "] " ++ m.body))
  | none => m.body

/-- A user with a name: a number in its place is an index, and is not kept. -/
def ReadableUser (user : Option Str) : Prop :=
  ∀ u, user = some u → u ≠ [] ∧ allDigits u = false ∧ ¬ lit "] " <:+: u

/-- What the fields of the message must not contain. -/
def Readable : Message → Prop
  | inboundFrom user _ src =>
    -- the parser looks for a destination before it looks for a source
    ReadableUser user ∧ src.Readable ∧ ¬ lit "connection to " <:+: src.text
  | inboundTo user _ dst => ReadableUser user ∧ dst.Readable
  | outboundTo _ dst => dst.Readable
  | ruleMatch _ index rule action =>
    index < 2 ^ 63 ∧ action.Readable ∧
      ∀ r, rule = some r →
        r ≠ lit "=>" ∧ ¬ lit "=> " <+: r ∧
          ¬ lit " => " <:+: action.text ∧ ¬ lit "=> " <+: action.text
  | sniffed protocol domain =>
    ¬ lit ", " <:+: protocol ∧ ∀ d, domain = some d → ¬ lit ", " <:+: d
  | dialFailed _ dst (some (type, name)) _ =>
    dst.Readable ∧ ¬ lit " using outbound/" <:+: dst.text ∧ '[' ∉ type ∧
      ¬ lit ": " <:+: type ++ '[' :: (name ++ [']'])
  | dialFailed _ dst none err =>
    -- the parser looks for an outbound first, in the error too
    dst.Readable ∧ ¬ lit ": " <:+: dst.text ∧
      ¬ lit " using outbound/" <:+: dst.text ++ (lit ": " ++ err)
  | processFailed src _ => src.Readable ∧ ¬ lit ": " <:+: src.text
  | upload _ | download _ | connectionClosed _ | lookupDomain _ => True
  | lookupSucceed domain addresses =>
    ¬ lit ": " <:+: domain ∧ ∀ a ∈ addresses, a ≠ [] ∧ ∀ c ∈ a, isSpace c = false
  | lookupFailed domain _ => ¬ lit ": " <:+: domain

end Message

/-- The event and the error of an ending. -/
def Ending.fill (direction : Direction) (l : Line) : Ending → Line
  | .finished => { l with event := .finished, direction := direction }
  | .closed err =>
    { l with event := .closed, direction := direction, error := String.ofList (err.getD []) }
  | .handshake err =>
    { l with
      event := .handshakeFailed, direction := direction, error := String.ofList (err.getD []) }

/-- The user of a message. -/
def Message.fillUser (l : Line) (m : Message) : Line :=
  match m.user with
  | some user => { l with user := String.ofList user }
  | none => l

/-- The event and the fields of a message. -/
def Message.fill (std : Std) (l : Line) : Message → Line
  | inboundFrom _ packet src => src.src { l with event := .inboundFrom, packet := packet }
  | inboundTo _ packet dst => dst.dst { l with event := .inboundTo, packet := packet }
  | outboundTo packet dst => dst.dst { l with event := .outboundTo, packet := packet }
  | ruleMatch _ index rule action =>
    action.fill { l with
      event := .ruleMatch, ruleIndex := index, hasRule := true
      ruleText := String.ofList (rule.getD []) }
  | sniffed protocol none => { l with event := .sniffed, sniffProtocol := String.ofList protocol }
  | sniffed protocol (some domain) =>
    { l with
      event := .sniffed, sniffProtocol := String.ofList protocol
      sniffDomain := String.ofList domain }
  | dialFailed packet dst none err =>
    dst.dst { l with event := .dialFailed, packet := packet, error := String.ofList err }
  | dialFailed packet dst (some (type, name)) err =>
    dst.dst { l with
      event := .dialFailed, packet := packet, error := String.ofList err
      outboundType := String.ofList type, outboundName := String.ofList name }
  | processFailed src err =>
    src.src { l with
      event := if isHandshakeError std err then .handshakeFailed else .authFailed
      error := String.ofList err }
  | upload ending => ending.fill .upload l
  | download ending => ending.fill .download l
  | connectionClosed err =>
    { l with event := .connectionClosed, error := String.ofList (err.getD []) }
  | lookupDomain domain => { l with event := .dns, dnsDomain := String.ofList domain }
  | lookupSucceed domain addresses =>
    { l with
      event := .dns, dnsDomain := String.ofList domain
      dnsResult := addresses.map String.ofList }
  | lookupFailed domain err =>
    { l with event := .dns, dnsDomain := String.ofList domain, error := String.ofList err }

/-- One entry of the log. -/
structure Entry where
  id : UInt32
  elapsed : Elapsed
  tag : Tag
  message : Message
deriving DecidableEq

/-- `[<id> <elapsed>] <tag>: <message>`. -/
def Entry.text (e : Entry) : Str :=
  '[' :: (Nat.toDigits 10 e.id.toNat ++ ' ' :: (e.elapsed.render ++ ']' :: ' ' ::
    (e.tag.text ++ (lit ": " ++ e.message.text))))

/-- The fields are readable, no escape character stands in the entry and no white space at
its end. -/
structure Entry.Readable (e : Entry) : Prop where
  elapsed : e.elapsed.Readable
  tag : e.tag.Readable
  message : e.message.Readable
  escape : '\x1b' ∉ e.text
  space : ∀ c, e.text.getLast? = some c → isSpace c = false

/-- The line that says what was logged. -/
def Entry.line (std : Std) (e : Entry) (level : String) (at_ : Time) : Line :=
  e.message.fill std <| e.message.fillUser
    { at_ := at_, level := level, raw := String.ofList e.text
      logID := e.id, hasLogID := true, elapsedMS := e.elapsed.ms std
      tag := String.ofList e.tag.text, tagKind := e.tag.kind
      tagType := String.ofList e.tag.type, tagName := String.ofList e.tag.name
      message := String.ofList e.message.text }

end LatticeAgent.Singboxlog
