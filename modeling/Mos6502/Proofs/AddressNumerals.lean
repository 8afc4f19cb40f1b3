/-
Mos6502/Proofs/AddressNumerals.lean

Which texts are addresses.  An address numeral is `$` with hexadecimal digits,
`0x` or `0X` with hexadecimal digits, or decimal digits alone, and there is
always at least one digit (`AddressNumeral`).  A base mark is looked for before
any digit is read, so a text could be lost if it were a decimal numeral and had
a mark in front at the same time; but a mark has a byte that is no decimal
digit (`splitNumeral_of_decimal`).

* `addressNumeral_iff` — the dispatch on the mark finds the numeral;
* `parseAddress_exact` — what is read is exactly the numerals of a word, with
  white space around them, and all else is refused as no address.
-/
import Mos6502.Proofs.Numerals
import Mos6502.Proofs.Trimming
import Mos6502.Settings.Address

namespace Mos6502

/-- The numerals of addresses, with their values.  Neither the number of
digits nor the value is bounded. -/
inductive AddressNumeral : Bytes → Nat → Prop
  /-- `$` and hexadecimal digits. -/
  | dollar {digits : Bytes} {n : Nat} : Numeral.Denotes 16 digits n →
      AddressNumeral (0x24 :: digits) n
  /-- `0x` or `0X` and hexadecimal digits. -/
  | zeroX {x : UInt8} {digits : Bytes} {n : Nat} : x = 0x78 ∨ x = 0x58 →
      Numeral.Denotes 16 digits n → AddressNumeral (0x30 :: x :: digits) n
  | decimal {digits : Bytes} {n : Nat} : Numeral.Denotes 10 digits n → AddressNumeral digits n

/-! ### Base marks -/

/-- The base of a numeral, by whether it has a mark. -/
def markedBase (isHex : Bool) : Nat :=
  if isHex then 16 else 10

theorem Numeral.Digit.decimal_bounds {b : UInt8} {d : Nat} (h : Numeral.Digit 10 b d) :
    0x30 ≤ b.toNat ∧ b.toNat ≤ 0x39 := by
  cases h with
  | decimal hd _ hb => omega
  | upper hk => omega
  | lower hk => omega

/-- Decimal digits have no mark in front. -/
theorem splitNumeral_of_decimal {t : Bytes} (h : ∀ b ∈ t, ∃ d, Numeral.Digit 10 b d) :
    splitNumeral t = (false, t) := by
  unfold splitNumeral
  split
  · obtain ⟨d, hd⟩ := h 0x24 (by simp)
    exact absurd hd.decimal_bounds (by decide)
  · obtain ⟨d, hd⟩ := h 0x78 (by simp)
    exact absurd hd.decimal_bounds (by decide)
  · obtain ⟨d, hd⟩ := h 0x58 (by simp)
    exact absurd hd.decimal_bounds (by decide)
  · rfl

/-- **The mark decides the base**, and what follows it are the digits. -/
theorem addressNumeral_iff {t : Bytes} {n : Nat} :
    AddressNumeral t n ↔
      Numeral.Denotes (markedBase (splitNumeral t).1) (splitNumeral t).2 n := by
  constructor
  · rintro (h | ⟨rfl | rfl, h⟩ | h)
    · exact h
    · exact h
    · exact h
    · rw [splitNumeral_of_decimal h.exists_digit]
      exact h
  · intro h
    unfold splitNumeral at h
    split at h
    · exact .dollar h
    · exact .zeroX (.inl rfl) h
    · exact .zeroX (.inr rfl) h
    · exact .decimal h

/-! ### Reading -/

theorem parseAddress_eq_ok_iff {s : Bytes} {v : UInt16} :
    parseAddress s = .ok v ↔ AddressNumeral (Text.trim s) v.toNat := by
  unfold parseAddress
  rw [addressNumeral_iff]
  rcases splitNumeral (Text.trim s) with ⟨isHex, digits⟩
  have hread : ∀ n, (if isHex then Numeral.readHex? digits else Numeral.readDecimal? digits) =
      some n ↔ Numeral.Denotes (markedBase isHex) digits n := by
    intro n
    cases isHex
    · exact Numeral.readDecimal?_eq_some_iff
    · exact Numeral.readHex?_eq_some_iff
  dsimp only
  rw [← hread]
  split
  · next n hn =>
    rw [hn, Option.some.injEq]
    split
    · next hle =>
      rw [Except.ok.injEq, ← UInt16.toNat_inj, Nat.toUInt16, UInt16.toNat_ofNat']
      omega
    · -- a value that is too large is no word
      next hlt =>
      have hv := v.toNat_lt
      constructor
      · intro h
        cases h
      · rintro rfl
        omega
  · next hnone => simp [hnone]

/-- **Reading an address is exact.**  It gives a word exactly if the text is,
with white space around it, a numeral of that word; every other text is
refused as an invalid address, be it no numeral or one whose value is too
large. -/
theorem parseAddress_exact (s : Bytes) :
    (∀ v : UInt16, parseAddress s = .ok v ↔ ∃ t, Text.Trims s t ∧ AddressNumeral t v.toNat) ∧
    ((∃ e, parseAddress s = .error e ∧ Diagnostic.fault e = .invalidAddress) ↔
      ¬ ∃ t n, Text.Trims s t ∧ AddressNumeral t n ∧ n ≤ 0xFFFF) := by
  have hok : ∀ v : UInt16,
      parseAddress s = .ok v ↔ ∃ t, Text.Trims s t ∧ AddressNumeral t v.toNat := by
    intro v
    simp only [parseAddress_eq_ok_iff, Text.trims_iff, exists_eq_left']
  refine ⟨hok, ?_⟩
  constructor
  · rintro ⟨e, he, -⟩ ⟨t, n, htrims, hn, hle⟩
    -- a value in range is a word, and that word would have been read
    have hword : n.toUInt16.toNat = n := by
      rw [Nat.toUInt16, UInt16.toNat_ofNat']
      omega
    rw [← hword] at hn
    rw [(hok n.toUInt16).mpr ⟨t, htrims, hn⟩] at he
    cases he
  · intro hnone
    rcases hs : parseAddress s with e | v
    · exact ⟨e, rfl, rfl⟩
    · obtain ⟨t, htrims, hv⟩ := (hok v).mp hs
      have hlt := v.toNat_lt
      exact absurd ⟨t, v.toNat, htrims, hv, by omega⟩ hnone

/-- A no-break space, a zero that is no mark, leading zeros and the largest
word; a text with two marks is refused. -/
example : parseAddress [0xC2, 0xA0, 0x30, 0x58, 0x30, 0x30, 0x30, 0x66, 0x46, 0x66, 0x46, 0x09] =
    .ok 0xFFFF ∧ parseAddress (ascii "$0x10") = .error ⟨ascii "0x10"⟩ := by
  decide +kernel

end Mos6502
