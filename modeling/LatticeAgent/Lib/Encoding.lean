import Mathlib.Data.List.Basic
import Mathlib.Logic.Function.Basic

/-! # Self-delimiting encodings

An encoding is self-delimiting if what follows a code word does not matter for where it ends and
what it stands for. Such encodings compose: in sequence, as lists up to a stop, and with a literal
for a missing value.

`object` writes a flat JSON object, of texts that may be null, the way a compact encoder does, with
the escapes of one that is safe inside HTML. -/

/-- A code word is told from what follows it. -/
def SelfDelimiting {α β : Type} (code : α → List β) : Prop :=
  ∀ ⦃a b : α⦄ ⦃x y : List β⦄, code a ++ x = code b ++ y → a = b ∧ x = y

namespace SelfDelimiting

open List

variable {α β γ : Type} {code : α → List β}

theorem injective (h : SelfDelimiting code) : Function.Injective code := by
  intro a b hab
  exact (h (congrArg (· ++ []) hab)).1

theorem of_decode {decode : List β → Option (α × List β)}
    (h : ∀ a x, decode (code a ++ x) = some (a, x)) : SelfDelimiting code := by
  intro a b x y heq
  have hsame : some (a, x) = some (b, y) := by rw [← h a x, heq, h b y]
  rwa [Option.some.injEq, Prod.mk.injEq] at hsame

section

variable (h : SelfDelimiting code)

include h

theorem comp {f : γ → α} (hf : Function.Injective f) : SelfDelimiting fun c => code (f c) := by
  intro a b x y heq
  obtain ⟨hab, hxy⟩ := h heq
  exact ⟨hf hab, hxy⟩

theorem literal (lit : List β) : SelfDelimiting fun a => lit ++ code a := by
  intro a b x y heq
  rw [append_assoc, append_assoc, append_cancel_left_eq] at heq
  exact h heq

theorem seq {code' : γ → List β} (h' : SelfDelimiting code') :
    SelfDelimiting fun p : α × γ => code p.1 ++ code' p.2 := by
  intro p q x y heq
  rw [append_assoc, append_assoc] at heq
  obtain ⟨hfirst, hrest⟩ := h heq
  obtain ⟨hsecond, hxy⟩ := h' hrest
  exact ⟨Prod.ext hfirst hsecond, hxy⟩

theorem option {missing : List β} (hne : ∀ a x y, missing ++ x ≠ code a ++ y) :
    SelfDelimiting fun o : Option α => o.elim missing code := by
  intro o o' x y heq
  cases o with
  | none =>
    cases o' with
    | none => exact ⟨rfl, append_cancel_left heq⟩
    | some b => exact absurd heq (hne b x y)
  | some a =>
    cases o' with
    | none => exact absurd heq.symm (hne a y x)
    | some b =>
      obtain ⟨rfl, hxy⟩ := h heq
      exact ⟨rfl, hxy⟩

theorem list {stop : β} (hstop : ∀ a x, (code a ++ x).head? ≠ some stop) :
    SelfDelimiting fun l : List α => l.flatMap code ++ [stop] := by
  intro l
  induction l with
  | nil =>
    intro l' x y heq
    cases l' with
    | nil => exact ⟨rfl, append_cancel_left heq⟩
    | cons b l' =>
      have hhead := congrArg head? heq
      simp only [flatMap_cons, append_assoc] at hhead
      exact absurd hhead.symm (hstop b _)
  | cons a l ih =>
    intro l' x y heq
    cases l' with
    | nil =>
      have hhead := congrArg head? heq
      simp only [flatMap_cons, append_assoc] at hhead
      exact absurd hhead (hstop a _)
    | cons b l' =>
      simp only [flatMap_cons, append_assoc] at heq
      obtain ⟨rfl, hrest⟩ := h heq
      obtain ⟨rfl, hxy⟩ := @ih l' x y (by simpa only [append_assoc] using hrest)
      exact ⟨rfl, hxy⟩

end

end SelfDelimiting

/-! ### JSON texts -/

namespace JsonText

open List

def hexDigits : List Char :=
  ['0', '1', '2', '3', '4', '5', '6', '7', '8', '9', 'a', 'b', 'c', 'd', 'e', 'f']

/-- Four hexadecimal digits. -/
def hex4 (n : Nat) : List Char :=
  [n / 4096 % 16, n / 256 % 16, n / 16 % 16, n % 16].map fun d => hexDigits.getD d '0'

/-- The characters with an escape of their own, and its letter. -/
def shortEscapes : List (Char × Char) :=
  [('"', '"'), ('\\', '\\'), ('\x08', 'b'), ('\x0c', 'f'), ('\n', 'n'), ('\r', 'r'), ('\t', 't')]

/-- A character inside a text. -/
def escape (c : Char) : List Char :=
  match shortEscapes.lookup c with
  | some letter => ['\\', letter]
  | none =>
    if c.toNat < 0x20 ∨ c ∈ ['<', '>', '&', '\u2028', '\u2029'] then '\\' :: 'u' :: hex4 c.toNat
    else [c]

def quoted (s : String) : List Char := '"' :: (s.toList.flatMap escape ++ ['"'])

/-- A text, or `null`. -/
def nullable (o : Option String) : List Char := o.elim ['n', 'u', 'l', 'l'] quoted

def member (m : String × Option String) : List Char := quoted m.1 ++ ':' :: nullable m.2

def object : List (String × Option String) → List Char
  | [] => ['{', '}']
  | m :: ms => '{' :: (member m ++ (ms.flatMap (fun m => ',' :: member m) ++ ['}']))

/-! ### What the texts tell -/

/-- The number of four hexadecimal digits. -/
def hexValue (ds : List Char) : Nat := ds.foldl (fun n d => 16 * n + hexDigits.idxOf d) 0

/-- The first character of an escaped text, and the rest. -/
def unescape : List Char → Option (Char × List Char)
  | [] => none
  | c :: rest =>
    if c ≠ '\\' then some (c, rest)
    else
      match rest with
      | [] => none
      | letter :: rest =>
        if letter = 'u' then some (.ofNat (hexValue (rest.take 4)), rest.drop 4)
        else ((shortEscapes.map Prod.swap).lookup letter).map (·, rest)

theorem idxOf_hexDigits {d : Nat} (h : d < 16) : hexDigits.idxOf (hexDigits.getD d '0') = d := by
  have hall : ∀ d < 16, hexDigits.idxOf (hexDigits.getD d '0') = d := by decide
  exact hall d h

theorem hexValue_hex4 {n : Nat} (h : n < 65536) : hexValue (hex4 n) = n := by
  simp only [hexValue, hex4, map_cons, map_nil, foldl_cons, foldl_nil]
  rw [idxOf_hexDigits (by omega), idxOf_hexDigits (by omega), idxOf_hexDigits (by omega),
    idxOf_hexDigits (by omega)]
  omega

theorem shortEscapes_letter {c letter : Char} (h : shortEscapes.lookup c = some letter) :
    letter ≠ 'u' ∧ (shortEscapes.map Prod.swap).lookup letter = some c := by
  have hall : ∀ p ∈ shortEscapes,
      p.2 ≠ 'u' ∧ (shortEscapes.map Prod.swap).lookup p.2 = some p.1 := by decide
  obtain ⟨before, after, heq, -⟩ := lookup_eq_some_iff.mp h
  exact hall (c, letter) (heq ▸ mem_append_right _ mem_cons_self)

theorem shortEscapes_none {c : Char} (h : shortEscapes.lookup c = none) : c ≠ '"' ∧ c ≠ '\\' := by
  constructor
  · rintro rfl
    cases h
  · rintro rfl
    cases h

theorem unescape_escape (c : Char) (rest : List Char) :
    unescape (escape c ++ rest) = some (c, rest) := by
  unfold escape
  split
  · rename_i letter hshort
    obtain ⟨hletter, hback⟩ := shortEscapes_letter hshort
    simp [unescape, hletter, hback]
  · rename_i hshort
    split
    · rename_i hspecial
      have hsmall : c.toNat < 65536 := by
        rcases hspecial with hcontrol | hmem
        · omega
        · simp only [mem_cons, List.not_mem_nil, or_false] at hmem
          rcases hmem with rfl | rfl | rfl | rfl | rfl <;> decide
      show some (Char.ofNat (hexValue (hex4 c.toNat)), rest) = some (c, rest)
      rw [hexValue_hex4 hsmall, Char.ofNat_toNat]
    · simp [unescape, (shortEscapes_none hshort).2]

theorem selfDelimiting_escape : SelfDelimiting escape := .of_decode unescape_escape

theorem escape_head (c : Char) (rest : List Char) : (escape c ++ rest).head? ≠ some '"' := by
  unfold escape
  split
  · exact of_decide_eq_true rfl
  · rename_i hshort
    split
    · exact of_decide_eq_true rfl
    · simpa using (shortEscapes_none hshort).1

theorem selfDelimiting_quoted : SelfDelimiting quoted :=
  ((selfDelimiting_escape.list escape_head).literal ['"']).comp fun _ _ h => String.toList_injective h

theorem selfDelimiting_nullable : SelfDelimiting nullable := by
  refine selfDelimiting_quoted.option fun s x y heq => ?_
  have hhead := congrArg head? heq
  exact absurd (Option.some.inj hhead) (by decide)

theorem selfDelimiting_member : SelfDelimiting member :=
  selfDelimiting_quoted.seq (selfDelimiting_nullable.literal [':'])

theorem object_injective : Function.Injective object := by
  have hempty : ∀ (m : String × Option String) (ms : List (String × Option String)),
      object [] ≠ object (m :: ms) := by
    intro m ms heq
    exact absurd (Option.some.inj (congrArg (fun cs => cs.tail.head?) heq)) (by decide)
  have hrest : SelfDelimiting fun ms : List (String × Option String) =>
      ms.flatMap (fun m => ',' :: member m) ++ ['}'] :=
    (selfDelimiting_member.literal [',']).list fun m x => of_decide_eq_true rfl
  intro ms ms' heq
  cases ms with
  | nil =>
    cases ms' with
    | nil => rfl
    | cons m' ms' => exact absurd heq (hempty m' ms')
  | cons m ms =>
    cases ms' with
    | nil => exact absurd heq.symm (hempty m ms)
    | cons m' ms' =>
      obtain ⟨rfl, htail⟩ := selfDelimiting_member (List.cons.inj heq).2
      rw [hrest.injective htail]

end JsonText
