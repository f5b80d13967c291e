import LatticeAgent.Singboxlog.RoundTrip

/-! # Elapsed times and addresses on their own

What `parseElapsedMS` makes of every duration sing-box can print, and what `splitHostPort`
makes of any text at all: the whole text as the host, or the host and the port that the text
is written of, and never a part of a host. -/

namespace LatticeAgent.Singboxlog

open Elapsed

open Text (cut cutLast cutLast_char)

/-- **The elapsed time of an entry is read back** to the resolution it was printed with. -/
theorem parseElapsedMS_ofMS (std : Std) {d : Nat} (h : d * 1000000 < 2 ^ 63) :
    parseElapsedMS std (ofMS d).render =
      some ((d / resolution d * resolution d : Nat) : Int) := by
  unfold ofMS resolution
  split
  · have hfits : d < 2 ^ 63 := by omega
    rw [parseElapsedMS_form (show (millis _).Readable from hfits) (by simp), ms]
    simp
  · split
    · rename_i hlt
      have hfits : d / 10 % 100 < 100 ∧ d / 1000 * 1000 + d / 10 % 100 * 10 < 2 ^ 63 := by omega
      have hms : d / 1000 * 1000 + d / 10 % 100 * 10 = d / 10 * 10 := by omega
      rw [parseElapsedMS_form (show (seconds _ _).Readable from hfits) (by simp),
        ms, hms]
    · have hfits : d / 60000 * 60 + d / 1000 % 60 ≤ 9223372036 := by omega
      have hms : (d / 60000 * 60 + d / 1000 % 60) * 1000 = d / 1000 * 1000 := by omega
      rw [parseElapsedMS_form (show (minutes _ _).Readable from hfits) (by simp),
        ms, hms]

/-- Four hundredths past a second are `1.4s`, forty are `1.40s`, and 61.5 s are cut to `1m1s`. -/
theorem parseElapsedMS_ofMS_forms :
    ((ofMS 1049).render = "1.4s".toList ∧
      parseElapsedMS minutesStd (ofMS 1049).render = some 1040) ∧
    ((ofMS 1400).render = "1.40s".toList ∧
      parseElapsedMS minutesStd (ofMS 1400).render = some 1400) ∧
    ((ofMS 61500).render = "1m1s".toList ∧
      parseElapsedMS minutesStd (ofMS 61500).render = some 61000) :=
  ⟨⟨by decide +kernel, parseElapsedMS_ofMS minutesStd (by decide)⟩,
    ⟨by decide +kernel, parseElapsedMS_ofMS minutesStd (by decide)⟩,
    ⟨by decide +kernel, parseElapsedMS_ofMS minutesStd (by decide)⟩⟩

/-! ### Addresses -/

/-- The digits of a port. -/
structure PortText (t : Str) (p : Int) : Prop where
  digits : allDigits t = true
  value : p = (Nat.ofDigitChars 10 t 0 : Nat)
  le : p ≤ 65535

/-- The ways in which a text is written of a host and a port, or is a host as a whole. -/
inductive Written (s : Str) : Str → Int → Prop where
  | whole : Written s s 0
  | plain {h t : Str} {p : Int} : s = h ++ ':' :: t → ':' ∉ h → PortText t p → Written s h p
  | bracketed {h t : Str} {p : Int} : s = '[' :: (h ++ ']' :: ':' :: t) → PortText t p →
      Written s h p
  | bare {h : Str} : s = '[' :: (h ++ [']']) → Written s h 0

theorem portText_of_parsePort {t : Str} {p : Int} (h : parsePort t = some p) : PortText t p := by
  unfold parsePort parseInt at h
  split at h
  · cases h
  · rename_i hdigits
    simp only [Bool.or_eq_true, decide_eq_true_eq, Bool.not_eq_true', not_or,
      Bool.not_eq_false] at hdigits
    have hall : ∀ c ∈ t, c.isDigit = true := by
      have := hdigits.2
      simp only [allDigits, Bool.and_eq_true, List.all_eq_true] at this
      exact this.2
    rw [Decimal.readInt_digits hdigits.1 hall] at h
    simp only [Option.filter_eq_some_iff, Option.some.injEq, Bool.not_eq_true',
      Bool.or_eq_false_iff, decide_eq_false_iff_not] at h
    obtain ⟨⟨rfl, -⟩, -, hle⟩ := h
    exact ⟨hdigits.2, rfl, by omega⟩

/-- Whatever the text, the host and the port returned are what it is written of. -/
theorem written_splitHostPort (s : Str) : Written s (splitHostPort s).1 (splitHostPort s).2 := by
  unfold splitHostPort
  split
  · rename_i inside hopen
    obtain rfl : '[' :: inside = s := List.isPrefixOf?_eq_some_iff_append_eq.mp hopen
    split
    · exact .whole
    · rename_i inner tail hlast
      obtain rfl := Text.append_of_cutLast hlast
      split
      · rename_i hnil
        rw [hnil]
        exact .bare rfl
      · split
        · rename_i n hport
          obtain ⟨t, ht, hn⟩ := Option.bind_eq_some_iff.mp hport
          obtain rfl : ':' :: t = tail := List.isPrefixOf?_eq_some_iff_append_eq.mp ht
          exact .bracketed rfl (portText_of_parsePort hn)
        · exact .whole
  · split
    · exact .whole
    · rename_i host text hlast
      obtain rfl := Text.append_of_cutLast hlast
      split
      · exact .whole
      · rename_i hcolon
        split
        · exact .whole
        · rename_i n hn
          exact .plain rfl hcolon (portText_of_parsePort hn)

theorem splitHostPort_plain {h : Str} (hcolon : ':' ∉ h) (hhead : h.head? ≠ some '[') {p : Nat}
    (hp : p ≤ 65535) : splitHostPort (h ++ ':' :: Nat.toDigits 10 p) = (h, (p : Int)) := by
  have hread := splitHostPort_text (a := ⟨h, some p⟩)
    ⟨fun _ => hhead, fun n hn => Option.some.inj hn ▸ hp⟩
  simpa [Address.text, hcolon] using hread

theorem splitHostPort_bracketed (h : Str) {p : Nat} (hp : p ≤ 65535) :
    splitHostPort ('[' :: (h ++ ']' :: ':' :: Nat.toDigits 10 p)) = (h, (p : Int)) := by
  have hno : ']' ∉ ':' :: Nat.toDigits 10 p := by
    simp [Decimal.not_mem_toDigits (show Char.isDigit ']' = false by decide)]
  simp [splitHostPort, List.isPrefixOf?, cutLast_char h hno, parsePort_toDigits hp]

/-- **A host is never split**: every text is returned whole or as what it is written of, and
a host with its port is returned as both. -/
theorem splitHostPort_never_splits_host :
    (∀ s, Written s (splitHostPort s).1 (splitHostPort s).2) ∧
    ∀ (h : Str) (p : Nat), p ≤ 65535 →
      (':' ∉ h → h.head? ≠ some '[' →
        splitHostPort (h ++ ':' :: Nat.toDigits 10 p) = (h, (p : Int))) ∧
      splitHostPort ('[' :: (h ++ ']' :: ':' :: Nat.toDigits 10 p)) = (h, (p : Int)) :=
  ⟨written_splitHostPort, fun h _ hp =>
    ⟨fun hcolon hhead => splitHostPort_plain hcolon hhead hp, splitHostPort_bracketed h hp⟩⟩

theorem splitHostPort_localhost :
    splitHostPort ("localhost".toList ++ ':' :: Nat.toDigits 10 53) = ("localhost".toList, 53) ∧
    splitHostPort ('[' :: ("::1".toList ++ ']' :: ':' :: Nat.toDigits 10 0)) = ("::1".toList, 0) :=
  ⟨(splitHostPort_never_splits_host.2 "localhost".toList 53 (by decide)).1 (by decide +kernel)
      (by decide +kernel),
    (splitHostPort_never_splits_host.2 "::1".toList 0 (by decide)).2⟩

end LatticeAgent.Singboxlog
