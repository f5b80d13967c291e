import LatticeAgent.Prober.Destination

/-! # The dns check

One question to one resolver, over DoH, DoT, TCP or UDP with one retry over TCP. -/

namespace LatticeAgent.Prober

open CutProg CutProg.Prog

variable (pkg : Packages)

/-! ### Texts -/

def dnsUDPPayload : Nat := 1232

def dnsMediaType : Bytes := utf8 "application/dns-message"

def dnsQuotedMax : Nat := 64

def dnsDetailMax : Nat := 160

def dnsErrorMax : Nat := 512

/-- `utf8.RuneStart`. -/
def runeStart (b : UInt8) : Bool := b &&& 0xc0 != 0x80

/-- The last place at or before `n` where a character starts. -/
def runeStartBefore (s : Bytes) : Nat → Nat
  | 0 => 0
  | n + 1 => if (s[n + 1]?).any runeStart then n + 1 else runeStartBefore s n

def cutUTF8 (s : Bytes) (n : Nat) : Bytes :=
  let s := pkg.toValidUTF8 s
  if s.length ≤ n then s else s.take (runeStartBefore s n)

/-- `strings.Join`. -/
def joined (sep : Bytes) (texts : List Bytes) : Bytes := (texts.intersperse sep).flatten

/-- `&dnsFailure{code, msg}`. -/
def dnsFailure (code : DnsCode) (msg : Bytes) : Err where
  text := pkg.dnsCodeText code ++ utf8 ": " ++ msg
  dnsFailure := some (code, msg)

def dnsTransportError (err : Err) : Err :=
  match err.dnsFailure with
  | some (code, msg) => dnsFailure pkg code msg
  | none =>
    if err.canceled then
      dnsFailure pkg .transport (utf8 "the run was cancelled before an answer")
    else if err.deadline || err.timeout then
      dnsFailure pkg .transport (utf8 "no answer before the check's timeout")
    else dnsFailure pkg .transport (cutUTF8 pkg err.text dnsDetailMax)

def dnsCertNamesShown : Nat := 3

def dnsCertNames (names : List Bytes) : Bytes :=
  if names = [] then utf8 "no DNS names"
  else
    let shown := (names.take dnsCertNamesShown).map (cutUTF8 pkg · dnsQuotedMax)
    let out := joined (utf8 ", ") shown
    if shown.length < names.length then
      out ++ utf8 " and " ++ itoa (names.length - shown.length) ++ utf8 " more"
    else out

def dnsTLSFailure (err : Err) : Err :=
  let msg := match err.hostname with
    | some (host, names) =>
      utf8 "the certificate does not cover " ++ host ++ utf8 " (it names " ++
        dnsCertNames pkg names ++ utf8 ")"
    | none =>
      if err.unknownAuthority then utf8 "the certificate is signed by an unknown authority"
      else
        let text := if utf8 "tls: " <+: err.text then err.text.drop 5 else err.text
        cutUTF8 pkg text dnsDetailMax
  dnsFailure pkg .transport (utf8 "tls: " ++ msg)

/-! ### The question and its answer -/

/-- `dnsQTypes`, the numbers of `dnsmessage`. -/
def dnsQTypes : DnsType → UInt16
  | .a => 1
  | .ns => 2
  | .cname => 5
  | .mx => 15
  | .txt => 16
  | .aaaa => 28

/-- The names of the types in texts. -/
def DnsType.text : DnsType → Bytes
  | .a => utf8 "A"
  | .aaaa => utf8 "AAAA"
  | .cname => utf8 "CNAME"
  | .txt => utf8 "TXT"
  | .mx => utf8 "MX"
  | .ns => utf8 "NS"

/-- `dnsmessage.ClassINET`. -/
def classINET : UInt16 := 1

/-- `dnsmessage.TypeOPT`. -/
def typeOPT : UInt16 := 41

structure DnsQuestion where
  name : Bytes
  typ : DnsType
  rcode : Bytes
  expect : List Bytes

def DnsQuestion.qtype (q : DnsQuestion) : UInt16 := dnsQTypes q.typ

def dnsQuestionOf (m : Monitor) : Except Bytes DnsQuestion := do
  let name ← (pkg.normalizeDNSName m.dnsName).mapError (utf8 "dns_name: " ++ ·)
  let typ ← pkg.normalizeDNSType m.dnsType
  let rcode ← pkg.normalizeDNSExpectRcode m.dnsExpectRcode
  if pkg.monitorDNSExpectMax < m.dnsExpect.length then
    throw (utf8 "dns_expect has " ++ itoa m.dnsExpect.length ++ utf8 " values; at most " ++
      itoa pkg.monitorDNSExpectMax)
  let expect ← m.dnsExpect.mapM fun raw =>
    (pkg.canonicalDNSValue typ raw).mapError (utf8 "dns_expect: " ++ ·)
  return { name, typ, rcode, expect }

structure DnsAnswer where
  rcode : Bytes := []
  values : List Bytes := []
  truncated : Bool := false

/-- `model.DNSRcodeNoError`. -/
def rcodeNoError : Bytes := utf8 "NOERROR"

/-- `model.DNSRcodeNXDomain`. -/
def rcodeNXDomain : Bytes := utf8 "NXDOMAIN"

def DnsQuestion.judge (q : DnsQuestion) (a : DnsAnswer) : Option Err :=
  if q.rcode = rcodeNXDomain then
    if a.rcode ≠ rcodeNXDomain then
      some (dnsFailure pkg .rcode (q.name ++ utf8 " answered " ++ a.rcode ++
        utf8 "; the check expects NXDOMAIN"))
    else none
  else if a.rcode ≠ rcodeNoError then
    some (dnsFailure pkg .rcode (q.name ++ utf8 " answered " ++ a.rcode))
  else if a.values = [] then
    some (dnsFailure pkg .noAnswer (utf8 "no " ++ q.typ.text ++ utf8 " answer for " ++ q.name))
  else
    let missing := q.expect.filter (· ∉ a.values)
    if missing ≠ [] then
      some (dnsFailure pkg .mismatch (utf8 "the " ++ q.typ.text ++ utf8 " answer for " ++ q.name ++
        utf8 " lacks " ++ joined (utf8 ", ") missing))
    else none

def dnsReported (values : List Bytes) : List Bytes :=
  (values.take pkg.monitorDNSAnswersMax).map (cutUTF8 pkg · pkg.monitorDNSValueMax)

/-- The ID of a query: 0 for DoH, random for the others. -/
def dnsID (doh : Bool) : Run UInt16 :=
  if doh then pure 0
  else do
    let random ← ask (·.random)
    pure ((random 0).toUInt16 <<< 8 ||| (random 1).toUInt16)

def dnsQuery (q : DnsQuestion) (doh : Bool) : Run (Bytes × UInt16) := do
  let id ← dnsID doh
  match pkg.newName (q.name ++ utf8 ".") with
  | some err => fail (.new (utf8 "dns_name: " ++ err))
  | none => do
    let msg ← lift (pkg.buildQuery id q.name q.qtype dnsUDPPayload)
    pure (msg, id)

def dnsName (name : Bytes) : Bytes :=
  pkg.toLower (if utf8 "." <:+ name then name.dropLast else name)

/-- `dnsValue`: the text of a resource that was read. -/
def dnsValue : DnsBody → Bytes
  | .a bits => pkg.addrString (.v4 bits)
  | .aaaa bits => pkg.addrString (.v6 bits [])
  | .cname name => dnsName pkg name
  | .ns name => dnsName pkg name
  | .mx name => dnsName pkg name
  | .txt texts => texts.flatten

def dnsRcodeName (code : Nat) : Bytes :=
  match code with
  | 0 => rcodeNoError
  | 1 => utf8 "FORMERR"
  | 2 => utf8 "SERVFAIL"
  | 3 => rcodeNXDomain
  | 4 => utf8 "NOTIMP"
  | 5 => utf8 "REFUSED"
  | 6 => utf8 "YXDOMAIN"
  | 7 => utf8 "YXRRSET"
  | 8 => utf8 "NXRRSET"
  | 9 => utf8 "NOTAUTH"
  | 10 => utf8 "NOTZONE"
  | 16 => utf8 "BADVERS"
  | 23 => utf8 "BADCOOKIE"
  | code => utf8 "RCODE" ++ itoa code

/-- The values of the answers of the asked type and class. -/
def dnsValues (q : DnsQuestion) (answers : List DnsResource) : Except Bytes (List Bytes) :=
  answers.foldlM (fun values resource =>
    if resource.type ≠ q.qtype ∨ resource.class' ≠ classINET then
      match resource.skip with
      | some err => throw err
      | none => return values
    else return values ++ [dnsValue pkg (← resource.body)]) []

/-- The response code, with the upper bits of the EDNS(0) records up to one that does not read. -/
def extendedRcode (rcode : Nat) : Nat → List DnsResource → Nat
  | code, [] => code
  | code, resource :: rest =>
    let code := if resource.type = typeOPT then resource.extended rcode else code
    if resource.skip.isSome then code else extendedRcode rcode code rest

def dnsDecode (raw : Bytes) (id : UInt16) (checkID : Bool) (q : DnsQuestion) :
    Except Err DnsAnswer := do
  let message ← (pkg.parseMessage raw).mapError fun err =>
    dnsFailure pkg .transport (utf8 "the response is not a DNS message: " ++ err)
  let h := message.header
  let notOurs := dnsFailure pkg .transport (utf8 "the response does not answer the query")
  if !h.response || (checkID && h.id != id) then throw notOurs
  if h.truncated then return { truncated := true }
  let malformed := fun err =>
    dnsFailure pkg .transport (utf8 "the response is malformed: " ++ err)
  let (questions, questionsErr) := message.questions
  if questions.any fun asked =>
      dnsName pkg asked.name != q.name || asked.type != q.qtype || asked.class' != classINET then
    throw notOurs
  if let some err := questionsErr then throw (malformed err)
  let (answers, answersErr) := message.answers
  let values ← (dnsValues pkg q answers).mapError malformed
  if let some err := answersErr then throw (malformed err)
  let rcode := if message.authorities.isSome then h.rcode
    else extendedRcode h.rcode h.rcode message.additionals
  return { rcode := dnsRcodeName rcode, values }

/-! ### Exchanges -/

/-- `conn.Write`. -/
def connWrite (_conn : Conn) (_data : Bytes) : Run Unit :=
  ask fun answer => (answer.write.map Except.error).getD (.ok ())

/-- `conn.Read` into a buffer of `n` bytes. -/
def connRead (_conn : Conn) (n : Nat) : Run Bytes := ask fun answer => answer.read.map (·.take n)

/-- `io.ReadFull`. -/
def readFull (conn : Conn) (n : Nat) : Run Bytes := do
  let data ← connRead conn n
  if data.length < n then fail (.new (utf8 "unexpected EOF")) else pure data

/-- The number in the first two bytes. -/
def uint16 : Bytes → Option UInt16
  | hi :: lo :: _ => some (hi.toUInt16 <<< 8 ||| lo.toUInt16)
  | _ => none

/-- Datagrams are read until one echoes the ID. -/
def readAnswer (conn : Conn) (id : UInt16) : Run Bytes :=
  loop (fun _ => do
    let datagram ← connRead conn pkg.monitorDNSResponseMax
    if uint16 datagram = some id then pure (.inr datagram) else pure (.inl ())) ()

def askUDP (addr : Addr) (port query : Bytes) (id : UInt16) : Run Bytes := do
  let conn ← dialJudged pkg (utf8 "udp") [addr] port
  connWrite conn query
  readAnswer pkg conn id

/-- The loop of `exchangeUDP`, with the first error so far; there is at least one address. -/
def exchangeNext (port query : Bytes) (id : UInt16) : List Addr → Option Err → Run (Bytes × Addr)
  | [], firstErr => fail (firstErr.getD (.new []))
  | addr :: addrs, firstErr => do
    match ← attempt (askUDP pkg addr port query id) with
    | .ok raw => pure (raw, addr)
    | .error err =>
      let firstErr := firstErr.getD err
      if (← ctxErr).isSome then fail firstErr
      else exchangeNext port query id addrs (some firstErr)

def exchangeUDP (addrs : List Addr) (port query : Bytes) (id : UInt16) : Run (Bytes × Addr) :=
  exchangeNext pkg port query id addrs none

/-- A number as two bytes. -/
def putUint16 (n : Nat) : Bytes := [.ofNat (n / 256), .ofNat n]

/-- One query and one response, each behind its length. -/
def dnsStreamExchange (conn : Conn) (query : Bytes) : Run Bytes := do
  connWrite conn (putUint16 query.length ++ query)
  let size ← readFull conn 2
  readFull conn ((uint16 size).getD 0).toNat

def exchangeTCP (addrs : List Addr) (port query : Bytes) : Run Bytes := do
  let conn ← dialJudged pkg (utf8 "tcp") addrs port
  dnsStreamExchange conn query

/-- The expiry of the certificate, once the handshake is complete, and the response. -/
def exchangeDoT (r : DnsResolver) (addrs : List Addr) (query : Bytes) :
    Run (Option Time × Except Err Bytes) := do
  match ← attempt (dialJudged pkg (utf8 "tcp") addrs (itoa r.port)) with
  | .error err => pure (none, .error err)
  | .ok conn => do
    match ← attempt (ask (·.handshake)) with
    | .error err =>
      if (← ctxErr).isSome || err.timeout then pure (none, .error err)
      else pure (none, .error (dnsTLSFailure pkg err))
    | .ok chain => do
      let raw ← attempt (dnsStreamExchange conn query)
      pure (chain.head?, raw)

def unwrapURLError (err : Err) : Err :=
  match err.url with
  | some uerr => { err with text := uerr.err, url := none }
  | none => err

/-- What a DoH exchange takes of a response. -/
def dohBody (resp : Response) : Except Err Bytes := do
  if resp.status ≠ 200 then
    throw (dnsFailure pkg .transport (utf8 "http status " ++ itoa resp.status))
  let media := pkg.parseMediaType resp.contentType
  if media ≠ dnsMediaType then
    let got :=
      if media ≠ [] then utf8 "content type " ++ pkg.quote (cutUTF8 pkg media dnsQuotedMax)
      else if resp.contentType ≠ [] then utf8 "a content type that does not parse"
      else utf8 "no content type"
    throw (dnsFailure pkg .transport (utf8 "http 200 with " ++ got ++ utf8 ", not " ++
      dnsMediaType))
  let tooLarge := dnsFailure pkg .transport
    (utf8 "the response is over " ++ itoa (pkg.monitorDNSResponseMax / 1024) ++ utf8 " KiB")
  if pkg.monitorDNSResponseMax < resp.contentLength then throw tooLarge
  let body ← resp.body.map (·.take (pkg.monitorDNSResponseMax + 1))
  if pkg.monitorDNSResponseMax < body.length then throw tooLarge
  return body

def exchangeDoH (r : DnsResolver) (addrs : List Addr) : Run (Option Time × Except Err Bytes) := do
  match pkg.newRequest r.url with
  | some err => pure (none, .error err)
  | none => do
    match ← attempt (clientDo (httpTransport pkg r.host addrs)) with
    | .error err =>
      match err.destination with
      | some msg => pure (none, .error (.refused msg))
      | none =>
        if err.certificate then pure (none, .error (dnsTLSFailure pkg err))
        else pure (none, .error (unwrapURLError err))
    | .ok resp => pure ((resp.certificates.getD []).head?, dohBody pkg resp)

/-- The exchange of a resolver's transport; a UDP answer comes with the address that sent it. -/
def exchange (r : DnsResolver) (addrs : List Addr) (query : Bytes) (id : UInt16) :
    Run (Option Time × Except Err (Bytes × Option Addr)) := do
  match r.transport with
  | .doh => do
    let (cert, raw) ← exchangeDoH pkg r addrs
    pure (cert, raw.map (·, none))
  | .dot => do
    let (cert, raw) ← exchangeDoT pkg r addrs query
    pure (cert, raw.map (·, none))
  | .tcp => do
    let raw ← attempt (exchangeTCP pkg addrs (itoa r.port) query)
    pure (none, raw.map (·, none))
  | .udp => do
    let raw ← attempt (exchangeUDP pkg addrs (itoa r.port) query id)
    pure (none, raw.map fun (raw, addr) => (raw, some addr))

/-! ### The check -/

/-- A DoH answer is bound to its request by HTTP, and its ID is 0. -/
def checkID (r : DnsResolver) : Bool := r.transport ≠ .doh

/-- The one retry a run makes: over TCP, to the address that sent a truncated UDP answer. -/
def retryTCP (r : DnsResolver) (q : DnsQuestion) (query : Bytes) (id : UInt16)
    (answer : DnsAnswer) (answeredBy : Option Addr) : Run (Except Err DnsAnswer) :=
  if answer.truncated && r.transport = .udp then do
    let raw ← attempt (exchangeTCP pkg answeredBy.toList (itoa r.port) query)
    pure (raw.bind fun raw => dnsDecode pkg raw id (checkID r) q)
  else pure (.ok answer)

/-- The answer of the exchange, or of the retry; one that is truncated still is none. -/
def dnsAnswerOf (r : DnsResolver) (q : DnsQuestion) (addrs : List Addr) (query : Bytes)
    (id : UInt16) : Run (Option Time × Except Err DnsAnswer) := do
  let (cert, raw) ← exchange pkg r addrs query id
  match raw with
  | .error err => pure (cert, .error err)
  | .ok (raw, answeredBy) => do
    match dnsDecode pkg raw id (checkID r) q with
    | .error err => pure (cert, .error err)
    | .ok answer => do
      let answer ← retryTCP pkg r q query id answer answeredBy
      pure (cert, answer.bind fun answer =>
        if answer.truncated then
          .error (dnsFailure pkg .transport (utf8 "the response is truncated"))
        else .ok answer)

/-- The result of a run that reached the exchange. -/
def dnsResult (q : DnsQuestion) (cert : Option Time) (answer : Except Err DnsAnswer) :
    Run Result := do
  match answer with
  | .error err =>
    match err.destination with
    | some msg =>
      pure { reason := some .destinationRefused, error := msg, certNotAfter := cert }
    | none => do
      let err := ((← ctxErr).filter (·.canceled)).getD err
      pure { error := (dnsTransportError pkg err).text, certNotAfter := cert }
  | .ok answer =>
    let res : Result :=
      { dnsRcode := answer.rcode, dnsAnswers := dnsReported pkg answer.values
        certNotAfter := cert }
    match q.judge pkg answer with
    | some failure => pure { res with error := failure.text }
    | none => pure { res with success := true }

/-- The run up to the cut of its error. -/
def runDNS (m : Monitor) : Run Result := do
  match pkg.parseDNSResolver m.target with
  | .error err => pure { error := err }
  | .ok resolver => do
    match dnsQuestionOf pkg m with
    | .error err => pure { error := err }
    | .ok q => do
      match ← attempt (resolveTarget pkg resolver.host false) with
      | .error err =>
        match err.destination with
        | some msg => pure { reason := some .destinationRefused, error := msg }
        | none => pure { error := (dnsTransportError pkg err).text }
      | .ok addrs => do
        match ← attempt (dnsQuery pkg q (resolver.transport = .doh)) with
        | .error err => pure { error := err.text }
        | .ok (query, id) => do
          let (cert, answer) ← dnsAnswerOf pkg resolver q addrs query id
          dnsResult pkg q cert answer

def probeDNS (m : Monitor) : Run Result := do
  let res ← runDNS pkg m
  pure { res with error := cutUTF8 pkg res.error dnsErrorMax }

end LatticeAgent.Prober
