/-
Mos6502/Proofs/Numerals.lean

Numerals, written and read.  A numeral denotes the sum of its digits, each
times a power of the base (`Denotes`); reading finds exactly the numerals and
what they denote (`readHex?_eq_some_iff`, `readDecimal?_eq_some_iff`).  A
hexadecimal numeral of `count` digits stands for a number modulo
`16 ^ count`:

    readHex? (hexPadded count n) = some (n % 16 ^ count).

Hence the numerals of two different words differ, which is what keeps the
made-up labels of a disassembly apart, and a literal of at most two digits is
worth less than 256, which is what makes it a one-byte operand.
-/
import Mathlib.Algebra.Group.Nat.Defs
import Mathlib.Data.List.Induction
import Mos6502.Text.Numeral

namespace Mos6502.Numeral

/-! ### Digits -/

/-- The digits of a base of at most 16, with their values: the ten decimal
ones, and letters of either case from ten on. -/
inductive Digit (base : Nat) : UInt8 → Nat → Prop
  | decimal {b : UInt8} {d : Nat} : d < 10 → d < base → b.toNat = 0x30 + d → Digit base b d
  | upper {b : UInt8} {k : Nat} : 10 + k < base → b.toNat = 0x41 + k → Digit base b (10 + k)
  | lower {b : UInt8} {k : Nat} : 10 + k < base → b.toNat = 0x61 + k → Digit base b (10 + k)

theorem Digit.lt {base d : Nat} {b : UInt8} (h : Digit base b d) : d < base := by
  cases h <;> assumption

theorem decimalValue?_eq_some_iff {b : UInt8} {d : Nat} :
    decimalValue? b = some d ↔ Digit 10 b d := by
  simp only [decimalValue?, Byte.isDigit, Bool.and_eq_true, decide_eq_true_eq,
    UInt8.le_iff_toNat_le, UInt8.reduceToNat]
  constructor
  · intro h
    split at h
    · cases h
      exact .decimal (by omega) (by omega) (by omega)
    · cases h
  · -- the letters are worth too much
    rintro (⟨hd, -, hb⟩ | ⟨hk, -⟩ | ⟨hk, -⟩)
    · rw [if_pos (by omega), hb, Nat.add_sub_cancel_left]
    · omega
    · omega

theorem hexValue?_eq_some_iff {b : UInt8} {d : Nat} : hexValue? b = some d ↔ Digit 16 b d := by
  simp only [hexValue?, Byte.isDigit, Bool.and_eq_true, decide_eq_true_eq,
    UInt8.le_iff_toNat_le, UInt8.reduceToNat]
  constructor
  · intro h
    split at h
    · cases h
      exact .decimal (by omega) (by omega) (by omega)
    · split at h
      · cases h
        rw [show b.toNat - 0x37 = 10 + (b.toNat - 0x41) by omega]
        exact .upper (by omega) (by omega)
      · split at h
        · cases h
          rw [show b.toNat - 0x57 = 10 + (b.toNat - 0x61) by omega]
          exact .lower (by omega) (by omega)
        · cases h
  · rintro (⟨hd, -, hb⟩ | ⟨hk, hb⟩ | ⟨hk, hb⟩)
    · rw [if_pos (by omega), hb, Nat.add_sub_cancel_left]
    · rw [if_neg (by omega), if_pos (by omega), Option.some.injEq]
      omega
    · rw [if_neg (by omega), if_neg (by omega), if_pos (by omega), Option.some.injEq]
      omega

theorem hexValue?_upperDigit : ∀ d < 16, hexValue? (upperDigit d) = some d := by
  decide

theorem isHexDigit_upperDigit : ∀ d < 16, Byte.isHexDigit (upperDigit d) = true := by
  decide

theorem isNamePart_upperDigit : ∀ d < 16, Byte.isNamePart (upperDigit d) = true := by
  decide

/-! ### Positional values -/

theorem positional_append (base : Nat) (ds : List Nat) (d : Nat) :
    positional base (ds ++ [d]) = positional base ds * base + d := by
  simp [positional]

theorem positional_cons (base d : Nat) (ds : List Nat) :
    positional base (d :: ds) = d * base ^ ds.length + positional base ds := by
  induction ds using List.reverseRecOn with
  | nil => simp [positional]
  | append_singleton ds x ih =>
    rw [← List.cons_append, positional_append, ih, positional_append, List.length_append,
      List.length_singleton, Nat.pow_succ, Nat.add_mul, Nat.mul_assoc, Nat.add_assoc]

/-- A numeral and its value: a single digit, or a digit in front of a numeral,
which counts by the power of the base for the digits behind it. -/
inductive Denotes (base : Nat) : Bytes → Nat → Prop
  | single {b : UInt8} {d : Nat} : Digit base b d → Denotes base [b] d
  | cons {b : UInt8} {d n : Nat} {s : Bytes} : Digit base b d → Denotes base s n →
      Denotes base (b :: s) (d * base ^ s.length + n)

namespace Denotes

variable {base n : Nat} {s : Bytes}

theorem ne_nil (h : Denotes base s n) : s ≠ [] := by
  cases h <;> simp

/-- The value of a numeral is bounded by its number of digits. -/
theorem lt (h : Denotes base s n) : n < base ^ s.length := by
  induction h with
  | single hd =>
    rw [List.length_singleton, Nat.pow_one]
    exact hd.lt
  | @cons b d n s hd _ ih =>
    rw [List.length_cons, Nat.pow_succ]
    calc d * base ^ s.length + n < d * base ^ s.length + base ^ s.length := by omega
      _ = (d + 1) * base ^ s.length := by rw [Nat.add_mul, Nat.one_mul]
      _ ≤ base * base ^ s.length := Nat.mul_le_mul_right _ hd.lt
      _ = base ^ s.length * base := Nat.mul_comm ..

/-- Every byte of a numeral is a digit. -/
theorem exists_digit (h : Denotes base s n) : ∀ b ∈ s, ∃ d, Digit base b d := by
  induction h with
  | single hd =>
    intro b hb
    rw [List.mem_singleton.mp hb]
    exact ⟨_, hd⟩
  | cons hd _ ih =>
    intro b hb
    rcases List.mem_cons.mp hb with rfl | hb
    · exact ⟨_, hd⟩
    · exact ih b hb

end Denotes

/-- Digits that are not empty are a numeral. -/
theorem exists_denotes {base : Nat} {s : Bytes} (hne : s ≠ []) (h : ∀ b ∈ s, ∃ d, Digit base b d) :
    ∃ n, Denotes base s n := by
  induction s with
  | nil => exact absurd rfl hne
  | cons b rest ih =>
    obtain ⟨d, hd⟩ := h b List.mem_cons_self
    cases rest with
    | nil => exact ⟨d, .single hd⟩
    | cons c rest =>
      obtain ⟨n, hn⟩ := ih (by simp) fun c hc => h c (List.mem_cons_of_mem b hc)
      exact ⟨_, .cons hd hn⟩

section Reading

variable {base n : Nat} {value? : UInt8 → Option Nat} {s : Bytes}
  (hdigit : ∀ {b d}, value? b = some d ↔ Digit base b d)

include hdigit

theorem denotes_of_mapM {ds : List Nat} (hne : s ≠ []) (h : s.mapM value? = some ds) :
    ds.length = s.length ∧ Denotes base s (positional base ds) := by
  induction s generalizing ds with
  | nil => exact absurd rfl hne
  | cons b rest ih =>
    rw [List.mapM_cons] at h
    obtain ⟨d, hd, h⟩ := Option.bind_eq_some_iff.mp h
    obtain ⟨more, hmore, h⟩ := Option.bind_eq_some_iff.mp h
    cases h
    cases rest with
    | nil =>
      rw [List.mapM_nil] at hmore
      cases hmore
      rw [show positional base [d] = d by simp [positional]]
      exact ⟨rfl, .single (hdigit.mp hd)⟩
    | cons c rest =>
      obtain ⟨hlen, hrest⟩ := ih (by simp) hmore
      rw [positional_cons, hlen]
      exact ⟨congrArg (· + 1) hlen, .cons (hdigit.mp hd) hrest⟩

theorem mapM_of_denotes (h : Denotes base s n) :
    ∃ ds, s.mapM value? = some ds ∧ ds.length = s.length ∧ positional base ds = n := by
  induction h with
  | @single b d hd => exact ⟨[d], by simp [hdigit.mpr hd], rfl, by simp [positional]⟩
  | @cons b d n s hd _ ih =>
    obtain ⟨ds, hds, hlen, hvalue⟩ := ih
    refine ⟨d :: ds, by simp [hdigit.mpr hd, hds], congrArg (· + 1) hlen, ?_⟩
    rw [positional_cons, hlen, hvalue]

/-- Digits read one by one and weighed together are a numeral. -/
theorem read_eq_some_iff :
    (if s.isEmpty then none else (s.mapM value?).map (positional base)) = some n ↔
      Denotes base s n := by
  constructor
  · intro h
    split at h
    · cases h
    · next hne =>
      obtain ⟨ds, hds, rfl⟩ := Option.map_eq_some_iff.mp h
      exact (denotes_of_mapM hdigit (by simpa using hne) hds).2
  · intro h
    obtain ⟨ds, hds, -, rfl⟩ := mapM_of_denotes hdigit h
    rw [if_neg (by simpa using h.ne_nil), hds, Option.map_some]

end Reading

/-- **Reading hexadecimal is exact.** -/
theorem readHex?_eq_some_iff {s : Bytes} {n : Nat} : readHex? s = some n ↔ Denotes 16 s n :=
  read_eq_some_iff hexValue?_eq_some_iff

/-- **Reading decimal is exact.** -/
theorem readDecimal?_eq_some_iff {s : Bytes} {n : Nat} :
    readDecimal? s = some n ↔ Denotes 10 s n :=
  read_eq_some_iff decimalValue?_eq_some_iff

theorem readHex?_lt {s : Bytes} {n : Nat} (h : readHex? s = some n) : n < 16 ^ s.length :=
  (readHex?_eq_some_iff.mp h).lt

/-! ### Writing, then reading -/

@[simp] theorem length_hexPadded (count n : Nat) : (hexPadded count n).length = count := by
  unfold hexPadded
  induction count generalizing n with
  | zero => rfl
  | succ count ih => simp [digitsPadded, ih]

theorem length_byte (b : UInt8) : (byte b).length = 2 :=
  length_hexPadded 2 b.toNat

theorem length_word (w : UInt16) : (word w).length = 4 :=
  length_hexPadded 4 w.toNat

theorem forall_mem_hexPadded {P : UInt8 → Prop} (hP : ∀ d < 16, P (upperDigit d)) (count n : Nat) :
    ∀ b ∈ hexPadded count n, P b := by
  unfold hexPadded
  induction count generalizing n with
  | zero => simp [digitsPadded]
  | succ count ih =>
    intro b hb
    rw [digitsPadded, List.mem_append, List.mem_singleton] at hb
    rcases hb with hb | rfl
    · exact ih _ b hb
    · exact hP _ (Nat.mod_lt _ (by decide))

theorem mapM_hexPadded (count n : Nat) :
    ∃ ds, (hexPadded count n).mapM hexValue? = some ds ∧ positional 16 ds = n % 16 ^ count := by
  unfold hexPadded
  induction count generalizing n with
  | zero => exact ⟨[], rfl, by simp [positional, Nat.mod_one]⟩
  | succ count ih =>
    obtain ⟨ds, hds, hval⟩ := ih (n / 16)
    refine ⟨ds ++ [n % 16], ?_, ?_⟩
    · rw [digitsPadded, List.mapM_append, hds]
      simp [hexValue?_upperDigit _ (Nat.mod_lt n (by decide : 0 < 16))]
    · rw [positional_append, hval, Nat.pow_succ, Nat.mul_comm (16 ^ count) 16, Nat.mod_mul]
      omega

/-- **A numeral is read back modulo what its digits can hold.** -/
theorem readHex?_hexPadded {count : Nat} (hcount : 0 < count) (n : Nat) :
    readHex? (hexPadded count n) = some (n % 16 ^ count) := by
  obtain ⟨ds, hds, hval⟩ := mapM_hexPadded count n
  have hne : (hexPadded count n).isEmpty = false := by
    rw [List.isEmpty_eq_false_iff, ← List.length_pos_iff, length_hexPadded]
    exact hcount
  rw [readHex?, hne, hds, ← hval]
  rfl

/-- The numeral of a word has its value. -/
theorem readHex?_word (w : UInt16) : readHex? (word w) = some w.toNat := by
  have hw : w.toNat < 16 ^ 4 := w.toNat_lt
  rw [word, readHex?_hexPadded (by decide), Nat.mod_eq_of_lt hw]

/-- Two words with the same numeral are the same word. -/
theorem word_injective {v w : UInt16} (h : word v = word w) : v = w := by
  have hread := congrArg readHex? h
  rw [readHex?_word, readHex?_word, Option.some.injEq] at hread
  exact UInt16.toNat_inj.mp hread

theorem hexLength_le {n width : Nat} (hwidth : 0 < width) (h : n < 16 ^ width) :
    hexLength n ≤ width := by
  induction width generalizing n with
  | zero => omega
  | succ width ih =>
    unfold hexLength
    split
    · omega
    · rw [Nat.pow_succ] at h
      have hdiv : n / 16 < 16 ^ width := Nat.div_lt_of_lt_mul (by omega)
      rcases Nat.eq_zero_or_pos width with rfl | hpos
      · omega
      · have := ih hpos hdiv
        omega

/-- A number that fits its width is written with exactly that many digits. -/
theorem hexAtLeast_of_lt {n width : Nat} (hwidth : 0 < width) (h : n < 16 ^ width) :
    hexAtLeast width n = hexPadded width n := by
  rw [hexAtLeast, Nat.max_eq_left (hexLength_le hwidth h)]

end Mos6502.Numeral
