import LatticeAgent.Lib.Decimal
import LatticeAgent.Lib.Text
import LatticeAgent.Trace.Types

/-! # Reading sing-box's log

`parse.go`: one payload of the log stream, `[<id> <elapsed>] <tag>: <message>`, becomes a
`Line`. A text is taken as the list of its characters; the line keeps strings. A function
that fills the line in place and says whether it could returns the filled line, or nothing
when it could not (it has not touched the line then). -/

namespace LatticeAgent.Singboxlog

open Trace (Line Event TagKind Direction)
open Text (lit cut cutLast)

abbrev Str := List Char

/-- What the parser takes from Go's library as it is: `strings.ToLower`, and
`time.ParseDuration` with its result in milliseconds. Of the latter it matters here that
it reads whole minutes and seconds, as far as a duration goes. -/
structure Std where
  toLower : Str → Str
  parseDuration : Str → Option Int
  parseDuration_minutes : ∀ m s : Nat, m * 60 + s ≤ 9223372036 →
    parseDuration (Nat.toDigits 10 m ++ 'm' :: (Nat.toDigits 10 s ++ ['s']))
      = some (((m * 60 + s) * 1000 : Nat) : Int)

def allDigits (s : Str) : Bool := s ≠ [] && s.all Char.isDigit

/-- `strconv.ParseUint(s, 10, 32)`. -/
def parseUint32 (s : Str) : Option UInt32 :=
  let n := Nat.ofDigitChars 10 s 0
  if allDigits s && n < 2 ^ 32 then some (UInt32.ofNat n) else none

/-- `strconv.ParseInt(s, 10, 64)`, and `strconv.Atoi`. -/
def parseInt (s : Str) : Option Int :=
  (Decimal.readInt s).filter fun n => -2 ^ 63 ≤ n && n < 2 ^ 63

def parsePort (s : Str) : Option Int :=
  if s = [] || !allDigits s then none
  else (parseInt s).filter fun n => !(n < 0 || n > 65535)

/-! ### The parts in front of the message -/

/-- Where `stripANSI` stands: in the text, behind an escape character, or in a colour. -/
inductive Ansi where
  | text | escape | colour

/-- The loop of `stripANSI`. -/
def Ansi.strip : Ansi → Str → Str
  | _, [] => []
  | .text, c :: s => if c = '\x1b' then strip .escape s else c :: strip .text s
  | .escape, c :: s =>
    if c = '[' then strip .colour s
    else if c = '\x1b' then strip .escape s
    else c :: strip .text s
  | .colour, c :: s => if ' ' ≤ c ∧ c ≤ '?' then strip .colour s else strip .text s

def stripANSI (s : Str) : Str := if '\x1b' ∈ s then Ansi.text.strip s else s

/-- The fraction of the middle form is in hundredths, also with one digit. -/
def parseElapsedMS (std : Std) (s : Str) : Option Int :=
  if s = [] then none
  else
    match (lit "ms").isSuffixOf? s with
    | some v => parseInt v
    | none =>
      match (['s'].isSuffixOf? s).bind (cut ['.']) with
      | some (seconds, frac) =>
        if frac.length ≥ 1 && frac.length ≤ 2 && allDigits seconds && allDigits frac then do
          let whole ← parseInt seconds
          let centis ← parseInt frac
          return int64 (whole * 1000 + centis * 10)
        else std.parseDuration s
      | none => std.parseDuration s

/-- `strings.TrimPrefix`. -/
def trimPrefix (pre s : Str) : Str := (pre.isPrefixOf? s).getD s

/-- The id, the elapsed time and what follows them. -/
def cutLogID (std : Std) (s : Str) : Option (UInt32 × Int × Str) := do
  let s ← ['['].isPrefixOf? s
  let (inner, after) ← cut [']'] s
  let (idText, durText) ← cut [' '] inner
  let n ← parseUint32 idText
  return (n, (parseElapsedMS std durText).getD 0, trimPrefix [' '] after)

def cutTag (s : Str) : Str × Str :=
  match cut (lit ": ") s with
  | none => ([], s)
  | some (candidate, message) =>
    if candidate = [] then ([], s)
    else if candidate.any fun c => c == ' ' || c == '\t' then ([], s)
    else (candidate, message)

/-- `<type>[<name>]`; a text of another form is all type. -/
def cutName (s : Str) : Str × Str :=
  match cut ['['] s with
  | some (front, name) => if [']'].isSuffixOf s then (front, name.dropLast) else (s, [])
  | none => (s, [])

def decomposeTag (tag : Str) : TagKind × Str × Str :=
  if tag = [] then (.other, [], [])
  else
    match cut ['/'] tag with
    | none =>
      (if tag = lit "inbound" then .inbound
       else if tag = lit "outbound" then .outbound
       else if tag = lit "router" then .router
       else if tag = lit "connection" then .connection
       else if tag = lit "dns" then .dns
       else .other, [], [])
    | some (kind, rest) =>
      (if kind = lit "inbound" then .inbound
       else if kind = lit "outbound" then .outbound
       else if kind = lit "dns" then .dns
       else .other, cutName rest)

/-! ### The message -/

def splitHostPort (s : Str) : Str × Int :=
  match ['['].isPrefixOf? s with
  | some inside =>
    match cutLast [']'] inside with
    | none => (s, 0)
    | some (inner, tail) =>
      if tail = [] then (inner, 0)
      else
        match ([':'].isPrefixOf? tail).bind parsePort with
        | some n => (inner, n)
        | none => (s, 0)
  | none =>
    match cutLast [':'] s with
    | none => (s, 0)
    | some (host, text) =>
      if ':' ∈ host then (s, 0)
      else
        match parsePort text with
        | none => (s, 0)
        | some n => (host, n)

def isQualifier (s : Str) : Bool :=
  s.all fun c => (('a' ≤ c && c ≤ 'z') || ('A' ≤ c && c ≤ 'Z') || ('0' ≤ c && c ≤ '9') || c == ' ')

def cutQualified (s sep : Str) : Option (Str × Str) :=
  (cut sep s).filter fun r => isQualifier r.1

/-- `strings.Contains(qualifier, "packet")`. -/
def isPacket (qualifier : Str) : Bool := decide (lit "packet" <:+: qualifier)

/-- `l.DstHost, l.DstPort = splitHostPort(dst)`. -/
def setDst (l : Line) (dst : Str) : Line :=
  { l with dstHost := String.ofList (splitHostPort dst).1, dstPort := (splitHostPort dst).2 }

/-- `l.SrcIP, l.SrcPort = splitHostPort(src)`. -/
def setSrc (l : Line) (src : Str) : Line :=
  { l with srcIP := String.ofList (splitHostPort src).1, srcPort := (splitHostPort src).2 }

def classifyInbound (l : Line) (rest : Str) : Option Line :=
  match cutQualified rest (lit "connection to ") with
  | some (qualifier, dst) =>
    some (setDst { l with event := .inboundTo, packet := isPacket qualifier } dst)
  | none =>
    match cutQualified rest (lit "connection from ") with
    | some (qualifier, src) =>
      some (setSrc { l with event := .inboundFrom, packet := isPacket qualifier } src)
    | none =>
      -- a packet conversation without a fixed destination
      (((lit "connection").isSuffixOf? rest).filter isQualifier).map fun qualifier =>
        { l with event := .inboundTo, packet := isPacket qualifier }

def classifyOutbound (l : Line) (rest : Str) : Option Line :=
  match cutQualified rest (lit "connection to ") with
  | some (qualifier, dst) =>
    some (setDst { l with event := .outboundTo, packet := isPacket qualifier } dst)
  | none =>
    (((lit "connection").isSuffixOf? rest).filter isQualifier).map fun qualifier =>
      { l with event := .outboundTo, packet := isPacket qualifier }

def cutParens (s : Str) : Option (Str × Str) :=
  if [')'].isSuffixOf s then (cut ['('] s).map fun r => (r.1, r.2.dropLast) else none

/-- The rule's text and the action. -/
def cutAction (tail : Str) : Option (Str × Str) :=
  match (lit "=> ").isPrefixOf? tail with
  | some action => some ([], action)
  | none => cutLast (lit " => ") tail

/-- `l.Action`, and `l.Outbound` for the actions whose arguments begin with it. -/
def setAction (l : Line) (action : Str) : Line :=
  match cutParens action with
  | none => { l with action := String.ofList action }
  | some (name, args) =>
    if name = lit "route" || name = lit "bypass" then
      { l with
        action := String.ofList name
        outbound := String.ofList (((cut [','] args).map Prod.fst).getD args) }
    else { l with action := String.ofList name }

def classifyRuleMatch (l : Line) (body : Str) : Option Line := do
  let rest := ((lit "pre-match[").isPrefixOf? body).getD (trimPrefix (lit "match[") body)
  let (index, tail) ← cut (lit "] ") rest
  let n ← parseInt index
  let (ruleText, action) ← cutAction tail
  return setAction
    { l with
      event := .ruleMatch, ruleIndex := n, hasRule := true, ruleText := String.ofList ruleText }
    action

/-- The loop of `classifySniffed` over the parts behind the protocol. -/
def sniffedParts (l : Line) (tail : Str) : Line :=
  if tail = [] then l
  else
    match _h : cut (lit ", ") tail with
    | none => setDomain l tail
    | some (part, tail') => sniffedParts (setDomain l part) tail'
termination_by tail.length
decreasing_by
  have := Text.length_of_cut _h
  simp only [Text.lit_eq, String.reduceToList, List.length_cons, List.length_nil] at this
  omega
where
  setDomain (l : Line) (part : Str) : Line :=
    match (lit "domain: ").isPrefixOf? part with
    | some domain => { l with sniffDomain := String.ofList domain }
    | none => l

def classifySniffed (l : Line) (rest : Str) : Line :=
  let (protocol, tail) := (cut (lit ", ") rest).getD (rest, [])
  sniffedParts { l with event := .sniffed, sniffProtocol := String.ofList protocol } tail

/-- The destination and the error of a failed dial; the line gets the outbound, if the
message names one. -/
def cutDial (l : Line) (rest : Str) : Line × Str × Str :=
  match cut (lit " using outbound/") rest with
  | some (dst, after) =>
    let (outbound, errText) := (cut (lit ": ") after).getD (after, [])
    let (outboundType, outboundName) := cutName outbound
    ({ l with
        outboundType := String.ofList outboundType
        outboundName := String.ofList outboundName }, dst, errText)
  | none =>
    let (dst, errText) := (cut (lit ": ") rest).getD (rest, [])
    (l, dst, errText)

def classifyDialFailure (l : Line) (body : Str) : Option Line :=
  match (lit "open connection to ").isPrefixOf? body with
  | some rest => some (fill false rest)
  | none => ((lit "open packet connection to ").isPrefixOf? body).map (fill true)
where
  fill (packet : Bool) (rest : Str) : Line :=
    let (l, dst, errText) := cutDial l rest
    setDst { l with event := .dialFailed, packet := packet, error := String.ofList errText } dst

def isHandshakeError (std : Std) (errText : Str) : Bool :=
  decide (lit "handshake" <:+: std.toLower errText)

def classifyAuthFailure (std : Std) (l : Line) (rest : Str) : Line :=
  let (src, errText) := (cut (lit ": ") rest).getD (rest, [])
  { setSrc l src with
    error := String.ofList errText
    event := if isHandshakeError std errText then .handshakeFailed else .authFailed }

/-- The error of `closed: <err>` and of `closed`, or the same with `handshake`. Without an
error the line keeps the empty one it has. -/
def cutCause (word rest : Str) : Option Str :=
  match (word ++ lit ": ").isPrefixOf? rest with
  | some errText => some errText
  | none => if rest = word then some [] else none

def classifyConnection (l : Line) (rest : Str) : Option Line :=
  match (lit "upload ").isPrefixOf? rest with
  | some rest => half .upload rest
  | none =>
    match (lit "download ").isPrefixOf? rest with
    | some rest => half .download rest
    | none =>
      (cutCause (lit "closed") rest).map fun errText =>
        { l with event := .connectionClosed, error := String.ofList errText }
where
  half (direction : Direction) (rest : Str) : Option Line :=
    match cutCause (lit "handshake") rest with
    | some errText =>
      some { l with
        event := .handshakeFailed, direction := direction, error := String.ofList errText }
    | none =>
      if rest = lit "finished" then some { l with event := .finished, direction := direction }
      else
        (cutCause (lit "closed") rest).map fun errText =>
          { l with event := .closed, direction := direction, error := String.ofList errText }

def classifyLookup (l : Line) (rest : Str) : Option Line :=
  match (lit "domain ").isPrefixOf? rest with
  | some domain => some { l with event := .dns, dnsDomain := String.ofList domain }
  | none =>
    match (lit "succeed for ").isPrefixOf? rest with
    | some rest =>
      let (domain, addresses) := (cut (lit ": ") rest).getD (rest, [])
      some { l with
        event := .dns, dnsDomain := String.ofList domain
        dnsResult := (Text.words isSpace addresses).map String.ofList }
    | none =>
      ((lit "failed for ").isPrefixOf? rest).map fun rest =>
        let (domain, errText) := (cut (lit ": ") rest).getD (rest, [])
        { l with
          event := .dns, dnsDomain := String.ofList domain, error := String.ofList errText }

/-- A user's place in the user list stands for no identity. -/
def cutUserPrefix (s : Str) : Option (Str × Str) := do
  let s ← ['['].isPrefixOf? s
  let (user, rest) ← cut (lit "] ") s
  return (if user = [] || allDigits user then [] else user, rest)

/-- The cases of `classify` behind the user prefix. -/
def classifyBody (std : Std) (l : Line) (body : Str) : Option Line :=
  if let some rest := (lit "inbound ").isPrefixOf? body then classifyInbound l rest
  else if let some rest := (lit "outbound ").isPrefixOf? body then classifyOutbound l rest
  else if (lit "match[").isPrefixOf body || (lit "pre-match[").isPrefixOf body then
    classifyRuleMatch l body
  else if let some rest := (lit "sniffed protocol: ").isPrefixOf? body then
    some (classifySniffed l rest)
  else if (lit "open ").isPrefixOf body then classifyDialFailure l body
  else if let some rest := (lit "process connection from ").isPrefixOf? body then
    some (classifyAuthFailure std l rest)
  else if let some rest := (lit "connection ").isPrefixOf? body then classifyConnection l rest
  else if let some rest := (lit "lookup ").isPrefixOf? body then classifyLookup l rest
  else none

/-- The line with its user, and the message behind the user prefix. The bracket is a user
only in front of an inbound's message. -/
def takeUser (l : Line) (message : Str) : Line × Str :=
  match cutUserPrefix message with
  | some (user, tail) =>
    if (lit "inbound ").isPrefixOf tail then ({ l with user := String.ofList user }, tail)
    else (l, message)
  | none => (l, message)

def classify (std : Std) (l : Line) (message : Str) : Line :=
  let (l, body) := takeUser l message
  match classifyBody std l body with
  | some l => l
  | none => { l with event := if l.tagKind = .dns then .dns else .other }

def parseBody (std : Std) (l : Line) (body : Str) : Line :=
  let rest := Text.trim isSpace body
  let (l, rest) :=
    match cutLogID std rest with
    | some (id, elapsed, tail) =>
      ({ l with logID := id, hasLogID := true, elapsedMS := elapsed }, tail)
    | none => (l, rest)
  let (tag, message) := cutTag rest
  let (tagKind, tagType, tagName) := decomposeTag tag
  classify std
    { l with
      tag := String.ofList tag, message := String.ofList message, tagKind := tagKind
      tagType := String.ofList tagType, tagName := String.ofList tagName }
    message

def parsePayload (std : Std) (raw level : String) (at_ : Time) : Line :=
  parseBody std { at_ := at_, level := level, raw := raw, event := .other } (stripANSI raw.toList)

end LatticeAgent.Singboxlog
