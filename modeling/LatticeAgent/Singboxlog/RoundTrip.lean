import LatticeAgent.Singboxlog.Render
import Mathlib.Data.Nat.Digits.Defs

/-! # The parser reads back what was logged

`parsePayload` of an entry's text is the line that says what was logged
(`parsePayload_text`), for every readable entry. The proof follows the parser: the front of
the entry (`cutLogID_text`, `cutTag_text`, `decomposeTag_text`), the user
(`takeUser_text`), and then one lemma for each kind of message (`classifyBody_body`). -/

namespace LatticeAgent.Singboxlog

open List Nat Decimal Text Message Bool
open Trace (Line Event TagKind Direction)
open Text (lit cut cutLast cut_char cutLast_char cut_of_unbordered)

/-! ### Numbers -/

theorem int64_eq_self {n : Int} (h0 : 0 ≤ n) (h : n < 2 ^ 63) : int64 n = n := by
  simp only [int64, Int.bmod]
  push_cast
  split <;> omega

theorem allDigits_toDigits (n : Nat) : allDigits (toDigits 10 n) := by
  simp only [allDigits, toDigits_ne_nil, ne_eq, not_false_eq_true, decide_true, Bool.true_and,
    all_eq_true]
  exact fun c => isDigit_toDigits

theorem parseInt_toDigits {n : Nat} (h : n < 2 ^ 63) :
    parseInt (toDigits 10 n) = some (n : Int) := by
  have hread : readInt (toDigits 10 n) = some (n : Int) := readInt_itoa n
  simp only [parseInt, hread, Option.filter_some]
  rw [if_pos]
  simp only [and_eq_true, decide_eq_true_eq]
  omega

theorem parseUint32_toDigits (id : UInt32) : parseUint32 (toDigits 10 id.toNat) = some id := by
  have hlt : id.toNat < 2 ^ 32 := id.toNat_lt
  simp only [parseUint32, allDigits_toDigits, ofDigitChars_ten_toDigits, hlt, decide_true,
    Bool.and_true, if_true, UInt32.ofNat_toNat]

theorem parsePort_toDigits {n : Nat} (h : n ≤ 65535) :
    parsePort (toDigits 10 n) = some (n : Int) := by
  simp only [parsePort, allDigits_toDigits, toDigits_ne_nil, decide_false, Bool.not_true,
    Bool.or_self, false_eq_true, if_false, parseInt_toDigits (show n < 2 ^ 63 by omega),
    Option.filter_some]
  rw [if_pos]
  simp only [not_eq_true', or_eq_false_iff, decide_eq_false_iff_not]
  omega

theorem isPrefixOf?_bracket {s : Str} (h : s.head? ≠ some '[') : ['['].isPrefixOf? s = none := by
  cases s with
  | nil => rfl
  | cons c s =>
    have hc : '[' ≠ c := fun heq => h (by rw [← heq]; rfl)
    simp [isPrefixOf?, hc]

theorem splitHostPort_text {a : Address} (h : a.Readable) :
    splitHostPort a.text = (a.host, ((a.port.getD 0 : Nat) : Int)) := by
  obtain ⟨host, port⟩ := a
  have hdigits : ∀ n, ']' ∉ ':' :: toDigits 10 n := fun n => by
    simp [not_mem_toDigits (show Char.isDigit ']' = false by decide)]
  by_cases hcolon : ':' ∈ host
  · -- in brackets, of which the last one closes
    cases port with
    | none =>
      have hcut : cutLast [']'] (host ++ [']']) = some (host, []) :=
        cutLast_char host List.not_mem_nil
      simp [Address.text, splitHostPort, hcolon, isPrefixOf?, hcut]
    | some n =>
      have hcut := cutLast_char host (hdigits n)
      simp [Address.text, splitHostPort, hcolon, isPrefixOf?, hcut,
        parsePort_toDigits (h.port n rfl)]
  · have hhead := h.host hcolon
    cases port with
    | none =>
      have hcut : cutLast [':'] host = none := by
        rw [cutLast_eq_none_iff, singleton_infix_iff]
        exact hcolon
      simp [Address.text, splitHostPort, hcolon, isPrefixOf?_bracket hhead, hcut]
    | some n =>
      have hcut : cutLast [':'] (host ++ ':' :: toDigits 10 n)
          = some (host, toDigits 10 n) :=
        cutLast_char host (not_mem_toDigits (by decide))
      have hopen : ['['].isPrefixOf? (host ++ ':' :: toDigits 10 n) = none := by
        refine isPrefixOf?_bracket ?_
        cases host with
        | nil => simp
        | cons c host => exact hhead
      simp [Address.text, splitHostPort, hcolon, hopen, hcut, parsePort_toDigits (h.port n rfl)]

/-! ### The front of an entry -/

theorem isSuffixOf?_ms (pre : Str) (n : Nat) :
    (lit "ms").isSuffixOf? (pre ++ (toDigits 10 n ++ ['s'])) = none := by
  rw [Option.eq_none_iff_forall_ne_some]
  intro v hv
  have heq : (v ++ ['m']) ++ ['s'] = (pre ++ toDigits 10 n) ++ ['s'] := by
    simpa using hv
  have hlast := congrArg getLast? (append_cancel_right heq)
  rw [getLast?_concat, getLast?_append_of_ne_nil _ toDigits_ne_nil] at hlast
  exact absurd (mem_of_getLast? hlast.symm) (not_mem_toDigits (by decide))

theorem isSuffixOf?_append (pre post : Str) : post.isSuffixOf? (pre ++ post) = some pre :=
  isSuffixOf?_eq_some_iff_append_eq.mpr rfl

variable {e : Elapsed}

theorem parseElapsedMS_form {std : Std} (h : e.Readable) (hform : ∀ t, e ≠ .text t) :
    parseElapsedMS std e.render = some (e.ms std) := by
  cases e with
  | text t => exact absurd rfl (hform t)
  | millis n =>
    have hms := isSuffixOf?_append (toDigits 10 n) (lit "ms")
    simp only [Elapsed.render, parseElapsedMS, hms, parseInt_toDigits h]
    simp [Elapsed.ms]
  | seconds s c =>
    obtain ⟨hc, hlt⟩ := h
    have hms := isSuffixOf?_ms (toDigits 10 s ++ ['.']) c
    have hs := isSuffixOf?_append (toDigits 10 s ++ '.' :: toDigits 10 c) ['s']
    have hdot := cut_char (toDigits 10 c)
      (not_mem_toDigits (n := s) (show Char.isDigit '.' = false by decide))
    have hlen : 1 ≤ (toDigits 10 c).length ∧ (toDigits 10 c).length ≤ 2 :=
      ⟨length_pos_iff.mpr toDigits_ne_nil, toDigits_length 10 c 2 (by decide) hc⟩
    simp only [append_assoc, cons_append, nil_append] at hms hs
    simp only [Elapsed.render, parseElapsedMS, hms, hs, Option.bind_some, hdot, hlen,
      allDigits_toDigits, parseInt_toDigits (show s < 2 ^ 63 by omega),
      parseInt_toDigits (show c < 2 ^ 63 by omega)]
    have hint : int64 ((s : Int) * 1000 + (c : Int) * 10) = (s * 1000 + c * 10 : Nat) := by
      rw [int64_eq_self (by omega) (by omega)]
      push_cast
      rfl
    simp [hint, Elapsed.ms]
  | minutes m s =>
    have hms := isSuffixOf?_ms (toDigits 10 m ++ ['m']) s
    have hs := isSuffixOf?_append (toDigits 10 m ++ 'm' :: toDigits 10 s) ['s']
    have hdot : cut ['.'] (toDigits 10 m ++ 'm' :: toDigits 10 s) = none := by
      rw [cut_eq_none_iff, singleton_infix_iff]
      simp [not_mem_toDigits (show Char.isDigit '.' = false by decide)]
    simp only [append_assoc, cons_append, nil_append] at hms hs
    simp only [Elapsed.render, parseElapsedMS, hms, hs, Option.bind_some, hdot,
      std.parseDuration_minutes m s h]
    simp [Elapsed.ms]

theorem parseElapsedMS_render {std : Std} (h : e.Readable) :
    (parseElapsedMS std e.render).getD 0 = e.ms std := by
  cases e with
  | text t => rfl
  | millis | seconds | minutes => rw [parseElapsedMS_form h (by simp), Option.getD_some]

theorem not_mem_render (h : e.Readable) : ']' ∉ e.render := by
  have hno : ∀ n, ']' ∉ toDigits 10 n := fun n => not_mem_toDigits (by decide)
  cases e with
  | text t => exact h
  | millis | seconds | minutes => simp [Elapsed.render, hno]

theorem cutLogID_text (std : Std) (h : e.Readable) (id : UInt32) (rest : Str) :
    cutLogID std ('[' :: (toDigits 10 id.toNat ++ ' ' :: (e.render ++ ']' :: ' ' :: rest)))
      = some (id, e.ms std, rest) := by
  have hclose : ']' ∉ toDigits 10 id.toNat ++ ' ' :: e.render := by
    simp [not_mem_render h, not_mem_toDigits (show Char.isDigit ']' = false by decide)]
  have hinner := cut_char (' ' :: rest) hclose
  have hid := cut_char e.render
    (not_mem_toDigits (n := id.toNat) (show Char.isDigit ' ' = false by decide))
  simp only [append_assoc, cons_append] at hinner
  simp [cutLogID, isPrefixOf?, hinner, hid, parseUint32_toDigits, parseElapsedMS_render h,
    trimPrefix]

theorem cutTag_text {t : Tag} (h : t.Readable) (message : Str) :
    cutTag (t.text ++ (lit ": " ++ message)) = (t.text, message) := by
  have hno : ¬ lit ": " <:+: t.text := fun hin =>
    (h.space ' ' (hin.subset (by simp))).1 rfl
  have hcut := cut_of_unbordered message (by rw [lit_eq]; decide) hno
  have hne : t.text ≠ [] := by cases t <;> simp [Tag.text]
  have hspace : (t.text.any fun c => c == ' ' || c == '\t') = false := by
    rw [any_eq_false]
    intro c hc
    simpa using h.space c hc
  simp only [cutTag, hcut, hne, hspace, if_false, false_eq_true]

theorem cutName_text {type : Str} (h : '[' ∉ type) (name : Str) :
    cutName (type ++ '[' :: (name ++ [']'])) = (type, name) := by
  have hsuffix : [']'].isSuffixOf (type ++ '[' :: (name ++ [']'])) := by
    rw [isSuffixOf_iff_suffix]
    exact ⟨type ++ '[' :: name, by simp⟩
  simp [cutName, cut_char (name ++ [']']) h, hsuffix]

theorem decomposeTag_text {t : Tag} (h : t.Readable) :
    decomposeTag t.text = (t.kind, t.type, t.name) := by
  cases t with
  | router | connection | dns =>
    simp [decomposeTag, Tag.text, cut, isPrefixOf, Tag.kind, Tag.type, Tag.name]
  | named family type name =>
    have hname := cutName_text (show '[' ∉ type from h.type) name
    cases family <;>
      simp [decomposeTag, Tag.text, Family.word, cut, isPrefixOf, hname, Tag.kind, Tag.type,
        Tag.name]

/-! ### Messages -/

theorem setDst_text {a : Address} (h : a.Readable) (l : Line) : setDst l a.text = a.dst l := by
  rw [setDst, splitHostPort_text h]
  rfl

theorem setSrc_text {a : Address} (h : a.Readable) (l : Line) : setSrc l a.text = a.src l := by
  rw [setSrc, splitHostPort_text h]
  rfl

/-- The qualifier is read off in front of the word that makes the message. -/
theorem cutQualified_to (packet : Bool) (rest : Str) :
    cutQualified (packetWord packet ++ (lit "connection to " ++ rest)) (lit "connection to ")
      = some (packetWord packet, rest) := by
  cases packet <;> simp [cutQualified, packetWord, cut, isPrefixOf, isQualifier]

theorem isPacket_packetWord (packet : Bool) : isPacket (packetWord packet) = packet := by
  cases packet <;> (simp [isPacket, packetWord]; try decide)

theorem classifyInbound_to {dst : Address} (h : dst.Readable) (l : Line) (packet : Bool) :
    classifyInbound l (packetWord packet ++ (lit "connection to " ++ dst.text))
      = some (dst.dst { l with event := .inboundTo, packet := packet }) := by
  simp only [classifyInbound, cutQualified_to, isPacket_packetWord, setDst_text h]

theorem classifyOutbound_to {dst : Address} (h : dst.Readable) (l : Line) (packet : Bool) :
    classifyOutbound l (packetWord packet ++ (lit "connection to " ++ dst.text))
      = some (dst.dst { l with event := .outboundTo, packet := packet }) := by
  simp only [classifyOutbound, cutQualified_to, isPacket_packetWord, setDst_text h]

theorem classifyInbound_from {src : Address} (h : src.Readable)
    (hto : ¬ lit "connection to " <:+: src.text) (l : Line) (packet : Bool) :
    classifyInbound l (packetWord packet ++ (lit "connection from " ++ src.text))
      = some (src.src { l with event := .inboundFrom, packet := packet }) := by
  have hnone := cut_eq_none_iff.mpr hto
  have hnot : cutQualified (packetWord packet ++ (lit "connection from " ++ src.text))
      (lit "connection to ") = none := by
    rw [lit_eq] at hnone
    cases packet <;> simp_all [cutQualified, packetWord, cut, isPrefixOf]
  have hfrom : cutQualified (packetWord packet ++ (lit "connection from " ++ src.text))
      (lit "connection from ") = some (packetWord packet, src.text) := by
    cases packet <;> simp [cutQualified, packetWord, cut, isPrefixOf, isQualifier]
  simp only [classifyInbound, hnot, hfrom, isPacket_packetWord, setSrc_text h]

theorem cutAction_rule {rule action : Str} (hrule : rule ≠ lit "=>") (hstart : ¬ lit "=> " <+: rule)
    (hin : ¬ lit " => " <:+: action) (hfront : ¬ lit "=> " <+: action) :
    cutAction (rule ++ (lit " => " ++ action)) = some (rule, action) := by
  have hcond : (lit "=> ").isPrefixOf? (rule ++ (lit " => " ++ action)) = none := by
    rw [Option.eq_none_iff_forall_ne_some]
    intro rest hrest
    rw [isPrefixOf?_eq_some_iff_append_eq] at hrest
    -- the text begins with the arrow only if the rule is the arrow or begins with it
    match rule with
    | [] | [c] => simp at hrest
    | [c, d] =>
      simp only [lit_eq, String.reduceToList, cons_append, List.cons.injEq] at hrest
      obtain ⟨rfl, rfl, -⟩ := hrest
      exact hrule (by simp)
    | c :: d :: e :: rule =>
      simp only [lit_eq, String.reduceToList, cons_append, List.cons.injEq] at hrest
      obtain ⟨rfl, rfl, rfl, -⟩ := hrest
      exact hstart (by simp)
  have hlast : ¬ lit " => " <:+: (lit " => ").tail ++ action := by
    simp_all [infix_cons_iff]
  simp only [cutAction, hcond, cutLast_append rule hlast]

theorem cutParens_plain {t : Str} (h : (Action.plain t).Readable) : cutParens t = none := by
  unfold cutParens
  split
  · rename_i hsuffix
    obtain ⟨front, rfl⟩ := isSuffixOf_iff_suffix.mp hsuffix
    rw [Option.map_eq_none_iff, cut_eq_none_iff, singleton_infix_iff]
    exact fun hopen => h ⟨getLast?_concat, hopen⟩
  · rfl

theorem cutParens_call {name : Str} (h : '(' ∉ name) (args : Str) :
    cutParens (name ++ '(' :: (args ++ [')'])) = some (name, args) := by
  have hsuffix : [')'].isSuffixOf (name ++ '(' :: (args ++ [')'])) := by
    rw [isSuffixOf_iff_suffix]
    exact ⟨name ++ '(' :: args, by simp⟩
  simp [cutParens, hsuffix, cut_char (args ++ [')']) h]

theorem cut_args {first : Str} (h : ',' ∉ first) (more : Option Str) :
    ((cut [','] (Action.args first more)).map Prod.fst).getD (Action.args first more) = first := by
  cases more with
  | none =>
    have hnone : cut [','] first = none := by
      rwa [cut_eq_none_iff, singleton_infix_iff]
    simp [Action.args, hnone]
  | some more => simp [Action.args, cut_char more h]

theorem setAction_text {action : Action} (h : action.Readable) (l : Line) :
    setAction l action.text = action.fill l := by
  cases action with
  | plain t => simp only [setAction, Action.text, cutParens_plain h, Action.fill]
  | call name first more =>
    simp only [setAction, Action.text, cutParens_call h.1, cut_args h.2, Action.fill,
      or_eq_true, decide_eq_true_eq]

theorem classifyRuleMatch_body {pre : Bool} {index : Nat} {rule : Option Str} {action : Action}
    (h : (Message.ruleMatch pre index rule action).Readable) (std : Std) (l : Line) :
    classifyRuleMatch l (Message.ruleMatch pre index rule action).body
      = some ((Message.ruleMatch pre index rule action).fill std l) := by
  obtain ⟨hindex, haction, hrule⟩ := h
  have hbracket : ¬ lit "] " <:+: toDigits 10 index := fun hin =>
    not_mem_toDigits (by decide) (hin.subset (show ']' ∈ lit "] " by simp))
  have hcut := fun tail => cut_of_unbordered tail (by rw [lit_eq]; decide) hbracket
  have htail : cutAction (ruleText rule action) = some (rule.getD [], action.text) := by
    cases rule with
    | none => simp [ruleText, cutAction, isPrefixOf?]
    | some rule =>
      obtain ⟨hr, hstart, hin, hfront⟩ := hrule rule rfl
      exact cutAction_rule hr hstart hin hfront
  have hrest : ∀ rest : Str,
      ((lit "pre-match[").isPrefixOf? ((if pre then lit "pre-match[" else lit "match[") ++ rest)).getD
        (trimPrefix (lit "match[") ((if pre then lit "pre-match[" else lit "match[") ++ rest))
        = rest := by
    intro rest
    cases pre <;> simp [trimPrefix, isPrefixOf?]
  simp only [classifyRuleMatch, body, hrest, hcut, htail, parseInt_toDigits hindex,
    setAction_text haction, Option.bind_eq_bind, Option.bind_some, Option.pure_def, fill]

theorem classifySniffed_body {protocol : Str} {domain : Option Str}
    (h : (Message.sniffed protocol domain).Readable) (std : Std) (l : Line) :
    classifySniffed l (sniffedText protocol domain)
      = (Message.sniffed protocol domain).fill std l := by
  obtain ⟨hprotocol, hdomain⟩ := h
  cases domain with
  | none =>
    simp only [sniffedText, classifySniffed, cut_eq_none_iff.mpr hprotocol, Option.getD_none]
    rw [sniffedParts, if_pos rfl]
    rfl
  | some d =>
    have hcut := cut_of_unbordered (lit "domain: " ++ d) (by rw [lit_eq]; decide) hprotocol
    have hnone : cut (lit ", ") (lit "domain: " ++ d) = none := by
      have hd := cut_eq_none_iff.mpr (hdomain d rfl)
      simp_all [cut, isPrefixOf]
    simp only [sniffedText, classifySniffed, hcut, Option.getD_some]
    rw [sniffedParts, if_neg (by simp)]
    split
    · simp [sniffedParts.setDomain, isPrefixOf?, fill]
    · simp_all

variable (l : Line)

theorem classifyDialFailure_text (packet : Bool) (rest : Str) :
    classifyDialFailure l (lit "open " ++ (packetWord packet ++ (lit "connection to " ++ rest)))
      = some (classifyDialFailure.fill l packet rest) := by
  cases packet <;> simp [classifyDialFailure, packetWord, isPrefixOf?]

theorem fill_dialText {packet : Bool} {dst : Address} {outbound : Option (Str × Str)} {err : Str}
    (h : (Message.dialFailed packet dst outbound err).Readable) (std : Std) (l : Line) :
    classifyDialFailure.fill l packet (dialText dst outbound err)
      = (Message.dialFailed packet dst outbound err).fill std l := by
  match outbound with
  | none =>
    obtain ⟨hdst, hcolon, husing⟩ := h
    have hnone := cut_eq_none_iff.mpr husing
    have hcut := cut_of_unbordered err (by rw [lit_eq]; decide) hcolon
    simp only [classifyDialFailure.fill, dialText, cutDial, hnone, hcut, Option.getD_some,
      setDst_text hdst, fill]
  | some (type, name) =>
    obtain ⟨hdst, husing, htype, hcolon⟩ := h
    have hcut := fun post => cut_of_unbordered post (by rw [lit_eq]; decide) husing
    have hcause := cut_of_unbordered err (by rw [lit_eq]; decide) hcolon
    simp only [classifyDialFailure.fill, dialText, cutDial, hcut, hcause, Option.getD_some,
      cutName_text htype, setDst_text hdst, fill]

theorem classifyAuthFailure_text {src : Address} (h : src.Readable)
    (hcolon : ¬ lit ": " <:+: src.text) (std : Std) (l : Line) (err : Str) :
    classifyAuthFailure std l (src.text ++ (lit ": " ++ err))
      = (Message.processFailed src err).fill std l := by
  have hcut := cut_of_unbordered err (by rw [lit_eq]; decide) hcolon
  simp only [classifyAuthFailure, hcut, Option.getD_some, setSrc_text h, fill]
  rfl

theorem cutCause_withCause (word : Str) (err : Option Str) :
    cutCause word (withCause word err) = some (err.getD []) := by
  cases err with
  | some err =>
    have hcut : (word ++ lit ": ").isPrefixOf? (word ++ (lit ": " ++ err)) = some err := by
      rw [isPrefixOf?_eq_some_iff_append_eq, append_assoc]
    simp only [cutCause, withCause, hcut, Option.getD_some]
  | none =>
    have hcut : (word ++ lit ": ").isPrefixOf? word = none := by
      rw [Option.eq_none_iff_forall_ne_some]
      intro rest hrest
      have hlen := congrArg List.length (isPrefixOf?_eq_some_iff_append_eq.mp hrest)
      simp at hlen
    simp only [cutCause, withCause, hcut, if_true, Option.getD_none]

theorem half_text (direction : Direction) (ending : Ending) :
    classifyConnection.half l direction ending.text = some (ending.fill direction l) := by
  cases ending with
  | finished => simp [classifyConnection.half, Ending.text, cutCause, isPrefixOf?, Ending.fill]
  | handshake err => simp only [classifyConnection.half, Ending.text, cutCause_withCause, Ending.fill]
  | closed err =>
    have hno : cutCause (lit "handshake") (withCause (lit "closed") err) = none := by
      cases err <;> simp [cutCause, withCause, isPrefixOf?]
    have hfinished : withCause (lit "closed") err ≠ lit "finished" := by
      cases err <;> simp [withCause]
    simp only [classifyConnection.half, Ending.text, hno, hfinished, if_false, cutCause_withCause,
      Option.map_some, Ending.fill]

theorem classifyConnection_upload (ending : Ending) :
    classifyConnection l (lit "upload " ++ ending.text) = some (ending.fill .upload l) := by
  rw [← half_text]
  simp [classifyConnection, isPrefixOf?]

theorem classifyConnection_download (ending : Ending) :
    classifyConnection l (lit "download " ++ ending.text) = some (ending.fill .download l) := by
  rw [← half_text]
  simp [classifyConnection, isPrefixOf?]

theorem classifyConnection_closed (err : Option Str) :
    classifyConnection l (withCause (lit "closed") err)
      = some { l with event := .connectionClosed, error := String.ofList (err.getD []) } := by
  have hup : (lit "upload ").isPrefixOf? (withCause (lit "closed") err) = none := by
    cases err <;> simp [withCause, isPrefixOf?]
  have hdown : (lit "download ").isPrefixOf? (withCause (lit "closed") err) = none := by
    cases err <;> simp [withCause, isPrefixOf?]
  simp only [classifyConnection, hup, hdown, cutCause_withCause, Option.map_some]

/-- The domain and what follows it, when `lookup` is followed by a result. -/
theorem classifyLookup_result {domain : Str} (hcolon : ¬ lit ": " <:+: domain) (l : Line)
    (text : Str) :
    classifyLookup l (lit "succeed for " ++ (domain ++ (lit ": " ++ text)))
        = some { l with
            event := .dns, dnsDomain := String.ofList domain
            dnsResult := (words isSpace text).map String.ofList } ∧
      classifyLookup l (lit "failed for " ++ (domain ++ (lit ": " ++ text)))
        = some { l with
            event := .dns, dnsDomain := String.ofList domain, error := String.ofList text } := by
  have hcut := cut_of_unbordered text (by rw [lit_eq]; decide) hcolon
  generalize domain ++ (lit ": " ++ text) = rest at hcut
  constructor <;> simp_all [classifyLookup, isPrefixOf?]

/-! Which case of `classify` a message reaches. -/

section
variable (std : Std) (l : Line) (rest : Str)

theorem classifyBody_inbound :
    classifyBody std l (lit "inbound " ++ rest) = classifyInbound l rest := by
  simp [classifyBody, isPrefixOf?]

theorem classifyBody_outbound :
    classifyBody std l (lit "outbound " ++ rest) = classifyOutbound l rest := by
  simp [classifyBody, isPrefixOf?]

theorem classifyBody_match (pre : Bool) :
    classifyBody std l ((if pre then lit "pre-match[" else lit "match[") ++ rest)
      = classifyRuleMatch l ((if pre then lit "pre-match[" else lit "match[") ++ rest) := by
  cases pre <;> simp [classifyBody, isPrefixOf?]

theorem classifyBody_sniffed :
    classifyBody std l (lit "sniffed protocol: " ++ rest) = some (classifySniffed l rest) := by
  simp [classifyBody, isPrefixOf?]

theorem classifyBody_open :
    classifyBody std l (lit "open " ++ rest) = classifyDialFailure l (lit "open " ++ rest) := by
  simp [classifyBody, isPrefixOf?]

theorem classifyBody_process :
    classifyBody std l (lit "process connection from " ++ rest)
      = some (classifyAuthFailure std l rest) := by
  simp [classifyBody, isPrefixOf?]

theorem classifyBody_connection :
    classifyBody std l (lit "connection " ++ rest) = classifyConnection l rest := by
  simp [classifyBody, isPrefixOf?]

theorem classifyBody_lookup :
    classifyBody std l (lit "lookup " ++ rest) = classifyLookup l rest := by
  simp [classifyBody, isPrefixOf?]

end

theorem classifyBody_body {m : Message} (h : m.Readable) (std : Std) (l : Line) :
    classifyBody std l m.body = some (m.fill std l) := by
  cases m with
  | inboundFrom user packet src =>
    obtain ⟨-, hsrc, hto⟩ := h
    simp only [body, classifyBody_inbound, classifyInbound_from hsrc hto, fill]
  | inboundTo user packet dst =>
    simp only [body, classifyBody_inbound, classifyInbound_to h.2, fill]
  | outboundTo packet dst =>
    simp only [body, classifyBody_outbound, classifyOutbound_to h, fill]
  | ruleMatch pre index rule action =>
    rw [← classifyRuleMatch_body h]
    exact classifyBody_match std l _ pre
  | sniffed protocol domain =>
    simp only [body, classifyBody_sniffed, classifySniffed_body h std]
  | dialFailed packet dst outbound err =>
    simp only [body, classifyBody_open, classifyDialFailure_text, fill_dialText h std]
  | processFailed src err =>
    simp only [body, classifyBody_process, classifyAuthFailure_text h.1 h.2]
  | upload ending =>
    simp only [body, classifyBody_connection, classifyConnection_upload, fill]
  | download ending =>
    simp only [body, classifyBody_connection, classifyConnection_download, fill]
  | connectionClosed err =>
    simp only [body, classifyBody_connection, classifyConnection_closed, fill]
  | lookupDomain domain =>
    simp only [body, classifyBody_lookup, fill]
    simp [classifyLookup, isPrefixOf?]
  | lookupSucceed domain addresses =>
    have hwords := words_intercalate (show isSpace ' ' = true by decide)
      (fun a ha => (h.2 a ha).1) fun a ha => (h.2 a ha).2
    simp only [body, classifyBody_lookup, classifyLookup_result h.1, hwords, fill]
  | lookupFailed domain err =>
    simp only [body, classifyBody_lookup, classifyLookup_result h, fill]

theorem cutUserPrefix_body (m : Message) : cutUserPrefix m.body = none := by
  have hbracket : ['['].isPrefixOf? m.body = none := by
    cases m with
    | ruleMatch pre index rule action => cases pre <;> simp [body, isPrefixOf?]
    | _ => simp [body, isPrefixOf?]
  rw [cutUserPrefix, hbracket]
  rfl

theorem takeUser_prefix {user : Option Str} (h : Message.ReadableUser user) {u : Str}
    (hu : user = some u) (l : Line) (rest : Str) :
    takeUser l ('[' :: (u ++ (lit "] " ++ (lit "inbound " ++ rest))))
      = ({ l with user := String.ofList u }, lit "inbound " ++ rest) := by
  obtain ⟨hne, hdigits, hbracket⟩ := h u hu
  have hcut := cut_of_unbordered (lit "inbound " ++ rest) (by rw [lit_eq]; decide) hbracket
  have hprefix : cutUserPrefix ('[' :: (u ++ (lit "] " ++ (lit "inbound " ++ rest))))
      = some (u, lit "inbound " ++ rest) := by
    simp [cutUserPrefix, isPrefixOf?, -lit_eq, hcut, hne, hdigits]
  simp only [takeUser, hprefix]
  rw [if_pos]
  simp

theorem takeUser_text {m : Message} (h : m.Readable) (l : Line) :
    takeUser l m.text = (m.fillUser l, m.body) := by
  cases huser : m.user with
  | none => simp only [takeUser, Message.text, fillUser, huser, cutUserPrefix_body]
  | some u =>
    -- only the messages of an inbound have a user
    cases m with
    | inboundFrom user packet src | inboundTo user packet dst =>
      simp only [Message.text, fillUser, huser]
      exact takeUser_prefix h.1 huser l _
    | _ => cases huser

theorem classify_text {m : Message} (h : m.Readable) (std : Std) (l : Line) :
    classify std l m.text = m.fill std (m.fillUser l) := by
  simp only [classify, takeUser_text h, classifyBody_body h]

/-! ### Entries -/

theorem stripANSI_eq_self {s : Str} (h : '\x1b' ∉ s) : stripANSI s = s := if_neg h

/-- An entry as it was logged is parsed into the line that says what was logged. -/
theorem parsePayload_text (std : Std) {e : Entry} (h : e.Readable) (level : String) (at_ : Time) :
    parsePayload std (String.ofList e.text) level at_ = e.line std level at_ := by
  have htrim : trim isSpace e.text = e.text := by
    refine trim_eq_self ?_ h.space
    rintro c hc
    obtain rfl : '[' = c := Option.some.inj hc
    decide
  have hlog := cutLogID_text std h.elapsed e.id (e.tag.text ++ (lit ": " ++ e.message.text))
  simp only [parsePayload, String.toList_ofList, stripANSI_eq_self h.escape, parseBody, htrim]
  simp only [Entry.text, hlog, cutTag_text h.tag, decomposeTag_text h.tag, classify_text h.message,
    Entry.line]

/-- A library that reads durations of minutes and seconds. -/
def minutesStd : Std where
  toLower := List.map Char.toLower
  parseDuration t :=
    match Decimal.scanNat t with
    | some (m, 'm' :: rest) =>
      match Decimal.scanNat rest with
      | some (s, ['s']) => some (((m * 60 + s) * 1000 : Nat) : Int)
      | _ => none
    | _ => none
  parseDuration_minutes m s _ := by
    have hstop : ∀ (c : Char) (t : Str), c.isDigit = false → Decimal.Stops (c :: t) := by
      rintro c t hc d hd
      rwa [← Option.some.inj hd]
    simp only [Decimal.scanNat_toDigits m (hstop 'm' _ (by decide)),
      Decimal.scanNat_toDigits s (hstop 's' [] (by decide))]

/-- `[7 1.4s] inbound/vless[in-443]: [alice] inbound connection from [2001:db8::1]:5353`. -/
def aliceEntry : Entry where
  id := 7
  elapsed := .seconds 1 4
  tag := .named .inbound (lit "vless") (lit "in-443")
  message := .inboundFrom (some (lit "alice")) false ⟨lit "2001:db8::1", some 5353⟩

/-- The same with a user `42`. -/
def numberedEntry : Entry :=
  { aliceEntry with
    message := .inboundFrom (some (lit "42")) false ⟨lit "2001:db8::1", some 5353⟩ }

theorem parsePayload_text_alice :
    String.ofList aliceEntry.text
        = "[7 1.4s] inbound/vless[in-443]: [alice] inbound connection from [2001:db8::1]:5353" ∧
      parsePayload minutesStd (String.ofList aliceEntry.text) "info" 9
        = aliceEntry.line minutesStd "info" 9 ∧
      (aliceEntry.line minutesStd "info" 9).user = "alice" ∧
      (aliceEntry.line minutesStd "info" 9).elapsedMS = 1040 := by
  have h : aliceEntry.Readable := by
    refine ⟨show 4 < 100 ∧ 1 * 1000 + 4 * 10 < 2 ^ 63 by decide,
      ⟨fun c hc => ?_, by decide +kernel⟩, ⟨?_, ⟨by decide +kernel, ?_⟩, ?_⟩,
      by decide +kernel, ?_⟩
    · have hall : (aliceEntry.tag.text.all fun c => decide (c ≠ ' ' ∧ c ≠ '\t')) = true := by
        decide +kernel
      exact of_decide_eq_true (all_eq_true.mp hall c hc)
    · rintro u hu
      obtain rfl := Option.some.inj hu
      decide +kernel
    · rintro n hn
      obtain rfl := Option.some.inj hn
      decide
    · decide +kernel
    · rintro c hc
      have hlast : aliceEntry.text.getLast? = some '3' := by decide +kernel
      obtain rfl := Option.some.inj (hlast.symm.trans hc)
      decide
  exact ⟨by decide +kernel, parsePayload_text minutesStd h "info" 9, by decide +kernel,
    by decide +kernel⟩

theorem numbered_user_lost :
    (¬ lit "] " <:+: lit "42" ∧ '\x1b' ∉ numberedEntry.text ∧
        numberedEntry.text.getLast? = some '3') ∧
      String.ofList numberedEntry.text
        = "[7 1.4s] inbound/vless[in-443]: [42] inbound connection from [2001:db8::1]:5353" ∧
      (numberedEntry.line minutesStd "info" 9).user = "42" ∧
      (parsePayload minutesStd (String.ofList numberedEntry.text) "info" 9).user = "" := by
  decide +kernel

end LatticeAgent.Singboxlog
