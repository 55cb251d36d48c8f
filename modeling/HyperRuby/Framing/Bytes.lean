import HyperRuby.Library.Search
import Mathlib.Data.Nat.Digits.Lemmas

/-! # Bytes, UTF-8 checks and decimal lengths of the framing layer

Buffers are byte lists. The UTF-8 check follows the byte table of
`std::str::from_utf8`, and `parseUsize` the checked digit loop of
`str::parse::<usize>` on a machine with `w`-bit words.
-/
namespace HyperRuby.Framing
open Library

abbrev Bytes := List UInt8

def space : UInt8 := 0x20
def newline : UInt8 := 0x0A
def carriageReturn : UInt8 := 0x0D

/-- The bytes `b'1'..=b'9'`, one of which starts an octet counted frame. -/
def leadDigit (b : UInt8) : Bool := 0x31 ≤ b && b ≤ 0x39

def digitLed : Bytes → Bool
  | [] => false
  | b :: _ => leadDigit b

@[simp] theorem digitLed_nil : digitLed [] = false := rfl
@[simp] theorem digitLed_cons (b : UInt8) (s : Bytes) : digitLed (b :: s) = leadDigit b := rfl

@[simp] theorem leadDigit_newline : leadDigit newline = false := by decide

theorem digitLed_append {s : Bytes} (h : s ≠ []) (t : Bytes) :
    digitLed (s ++ t) = digitLed s := by
  cases s with
  | nil => exact absurd rfl h
  | cons b s => rfl

theorem ne_nil_of_digitLed {s : Bytes} (h : digitLed s = true) : s ≠ [] := by
  rintro rfl
  simp at h

/-- The first position of a byte, as `iter().position` finds it. -/
def position (b : UInt8) (src : Bytes) : Option ℕ := src.idxOf? b

theorem position_eq_none {b : UInt8} {src : Bytes} : position b src = none ↔ b ∉ src :=
  List.idxOf?_eq_none_iff

theorem position_eq_some {b : UInt8} {src : Bytes} {n : ℕ} :
    position b src = some n ↔ ∃ p r, src = p ++ b :: r ∧ b ∉ p ∧ p.length = n :=
  idxOf?_eq_some_split

theorem position_split {b : UInt8} {p r : Bytes} (h : b ∉ p) :
    position b (p ++ b :: r) = some p.length := idxOf?_split h

theorem position_lt {b : UInt8} {src : Bytes} {n : ℕ} (h : position b src = some n) :
    n < src.length := idxOf?_lt_length h

theorem position_append_left {b : UInt8} {src : Bytes} {n : ℕ} (h : position b src = some n)
    (more : Bytes) : position b (src ++ more) = some n := idxOf?_append_left h more

theorem position_append_right {b : UInt8} {src : Bytes} (h : b ∉ src) (more : Bytes) :
    position b (src ++ more) = (position b more).map (src.length + ·) :=
  idxOf?_append_right h more

/-- What follows the first newline. -/
def afterNewline (src : Bytes) : Option Bytes :=
  (position newline src).map (fun p => src.drop (p + 1))

theorem afterNewline_eq_some {src r : Bytes} :
    afterNewline src = some r ↔ ∃ p, src = p ++ newline :: r ∧ newline ∉ p := by
  rw [afterNewline, Option.map_eq_some_iff]
  constructor
  · rintro ⟨n, hn, rfl⟩
    obtain ⟨p, r, rfl, hp, rfl⟩ := position_eq_some.mp hn
    exact ⟨p, by rw [drop_split], hp⟩
  · rintro ⟨p, rfl, hp⟩
    exact ⟨p.length, position_split hp, drop_split newline p r⟩

theorem afterNewline_eq_none {src : Bytes} : afterNewline src = none ↔ newline ∉ src := by
  rw [afterNewline, Option.map_eq_none_iff, position_eq_none]

theorem afterNewline_split {p r : Bytes} (h : newline ∉ p) :
    afterNewline (p ++ newline :: r) = some r := afterNewline_eq_some.mpr ⟨p, rfl, h⟩

theorem afterNewline_skip {src : Bytes} (h : newline ∉ src) (more : Bytes) :
    afterNewline (src ++ more) = afterNewline more := by
  rw [afterNewline, afterNewline, position_append_right h, Option.map_map]
  congr 1
  ext p : 1
  simp [Nat.add_assoc]

def continuation (b : UInt8) : Bool := 0x80 ≤ b && b ≤ 0xBF

/-- Leading pairs of a three byte sequence, without overlong forms and surrogates. -/
def threeByteLead (a b : UInt8) : Bool :=
  (a == 0xE0 && (0xA0 ≤ b && b ≤ 0xBF)) ||
  (0xE1 ≤ a && a ≤ 0xEC && continuation b) ||
  (a == 0xED && (0x80 ≤ b && b ≤ 0x9F)) ||
  (0xEE ≤ a && a ≤ 0xEF && continuation b)

/-- Leading pairs of a four byte sequence, up to U+10FFFF. -/
def fourByteLead (a b : UInt8) : Bool :=
  (a == 0xF0 && (0x90 ≤ b && b ≤ 0xBF)) ||
  (0xF1 ≤ a && a ≤ 0xF3 && continuation b) ||
  (a == 0xF4 && (0x80 ≤ b && b ≤ 0x8F))

/-- `std::str::from_utf8(bytes).is_ok()`. -/
def fromUtf8 : Bytes → Bool
  | [] => true
  | a :: s =>
    if a < 0x80 then fromUtf8 s
    else match s with
      | [] => false
      | b :: s =>
        if 0xC2 ≤ a && a ≤ 0xDF then continuation b && fromUtf8 s
        else match s with
          | [] => false
          | c :: s =>
            if 0xE0 ≤ a && a ≤ 0xEF then threeByteLead a b && continuation c && fromUtf8 s
            else match s with
              | [] => false
              | d :: s =>
                fourByteLead a b && continuation c && continuation d && fromUtf8 s

theorem fromUtf8_ascii {s : Bytes} (h : ∀ b ∈ s, b < 0x80) : fromUtf8 s = true := by
  induction s with
  | nil => rfl
  | cons a s ih =>
    have ha : a < 0x80 := h a (by simp)
    rw [fromUtf8.eq_def]
    simp only [ha, if_true]
    exact ih (fun b hb => h b (List.mem_cons_of_mem _ hb))

def digitValue (b : UInt8) : Option ℕ :=
  if 0x30 ≤ b ∧ b ≤ 0x39 then some (b.toNat - 0x30) else none

/-- The digit loop of `parse`, with `checked_mul` and `checked_add` on `w` bits. -/
def parseDigits (w : ℕ) : ℕ → Bytes → Option ℕ
  | value, [] => some value
  | value, b :: s =>
    match digitValue b with
    | none => none
    | some d => if value * 10 + d < 2 ^ w then parseDigits w (value * 10 + d) s else none

/-- `num.parse::<usize>().ok()`: one leading plus sign is accepted, a bare sign is not. -/
def parseUsize (w : ℕ) (num : Bytes) : Option ℕ :=
  match num with
  | [] => none
  | b :: s =>
    if b = 0x2B then (if s = [] then none else parseDigits w 0 s)
    else parseDigits w 0 num

/-- The decimal text of a length, most significant digit first. -/
def decimal (n : ℕ) : Bytes := (Nat.digits 10 n).reverse.map (fun d => UInt8.ofNat (0x30 + d))

theorem digitByte_toNat {d : ℕ} (h : d < 10) : (UInt8.ofNat (0x30 + d)).toNat = 0x30 + d := by
  rw [UInt8.toNat_ofNat']
  omega

theorem digitValue_digitByte {d : ℕ} (h : d < 10) :
    digitValue (UInt8.ofNat (0x30 + d)) = some d := by
  have hd := digitByte_toNat h
  rw [digitValue, if_pos, hd]
  · simp
  · constructor
    · rw [UInt8.le_iff_toNat_le, hd]
      simp
    · rw [UInt8.le_iff_toNat_le, hd]
      simp
      omega

theorem mem_decimal {n : ℕ} {b : UInt8} (h : b ∈ decimal n) :
    ∃ d < 10, b = UInt8.ofNat (0x30 + d) := by
  obtain ⟨d, hd, rfl⟩ := List.mem_map.mp h
  exact ⟨d, Nat.digits_lt_base (by norm_num) (List.mem_reverse.mp hd), rfl⟩

theorem decimal_toNat {n : ℕ} {b : UInt8} (h : b ∈ decimal n) :
    0x30 ≤ b.toNat ∧ b.toNat ≤ 0x39 := by
  obtain ⟨d, hd, rfl⟩ := mem_decimal h
  rw [digitByte_toNat hd]
  omega

theorem space_not_mem_decimal (n : ℕ) : space ∉ decimal n := by
  intro h
  have := decimal_toNat h
  simp [space] at this

theorem newline_not_mem_decimal (n : ℕ) : newline ∉ decimal n := by
  intro h
  have := decimal_toNat h
  simp [newline] at this

theorem fromUtf8_decimal (n : ℕ) : fromUtf8 (decimal n) = true := by
  apply fromUtf8_ascii
  intro b hb
  have := decimal_toNat hb
  rw [UInt8.lt_iff_toNat_lt]
  simp
  omega

theorem decimal_ne_nil {n : ℕ} (h : n ≠ 0) : decimal n ≠ [] := by
  simp [decimal, Nat.digits_ne_nil_iff_ne_zero.mpr h]

theorem decimal_succ_step {n : ℕ} (h : n ≠ 0) :
    decimal n = decimal (n / 10) ++ [UInt8.ofNat (0x30 + n % 10)] := by
  simp [decimal, Nat.digits_def' (by norm_num : 1 < 10) (Nat.pos_of_ne_zero h)]

theorem digitLed_decimal {n : ℕ} (h : n ≠ 0) : digitLed (decimal n) = true := by
  induction n using Nat.strong_induction_on with
  | _ n ih =>
    rw [decimal_succ_step h]
    by_cases hq : n / 10 = 0
    · rw [hq, show decimal 0 = [] from rfl, List.nil_append, digitLed_cons, leadDigit]
      have hd := digitByte_toNat (show n % 10 < 10 by omega)
      simp only [Bool.and_eq_true, decide_eq_true_eq, UInt8.le_iff_toNat_le, hd]
      simp
      omega
    · rw [digitLed_append (decimal_ne_nil hq)]
      exact ih (n / 10) (by omega) hq

theorem parseDigits_append {w value m : ℕ} {s : Bytes} (h : parseDigits w value s = some m)
    (t : Bytes) : parseDigits w value (s ++ t) = parseDigits w m t := by
  induction s generalizing value with
  | nil =>
    obtain rfl : value = m := by simpa [parseDigits] using h
    rfl
  | cons b s ih =>
    rw [parseDigits] at h
    rw [List.cons_append, parseDigits]
    split at h
    · cases h
    · split at h
      · rename_i hlt
        rw [if_pos hlt]
        exact ih h
      · cases h

theorem parseDigits_decimal {w n : ℕ} (h : n < 2 ^ w) : parseDigits w 0 (decimal n) = some n := by
  induction n using Nat.strong_induction_on with
  | _ n ih =>
    by_cases hn : n = 0
    · subst n
      rfl
    · rw [decimal_succ_step hn, parseDigits_append (ih (n / 10) (by omega) (by omega)),
        parseDigits, digitValue_digitByte (by omega)]
      have hdiv : n / 10 * 10 + n % 10 = n := by omega
      simp only [hdiv, if_pos h, parseDigits]

theorem parseUsize_decimal {w n : ℕ} (h0 : n ≠ 0) (h : n < 2 ^ w) :
    parseUsize w (decimal n) = some n := by
  cases hs : decimal n with
  | nil => exact absurd hs (decimal_ne_nil h0)
  | cons b s =>
    have hb : b ≠ 0x2B := by
      rintro rfl
      have := decimal_toNat (n := n) (by rw [hs]; exact List.mem_cons_self)
      simp at this
    rw [parseUsize, if_neg hb, ← hs]
    exact parseDigits_decimal h

/-- A length of at most `m` has fewer than `m` digits, once `m` is two or more. -/
theorem decimal_length_lt {n m : ℕ} (h0 : n ≠ 0) (hn : n ≤ m) (hm : 2 ≤ m) :
    (decimal n).length < m := by
  have hle := Nat.base_pow_length_digits_le 10 n (by norm_num) h0
  have hlen : (decimal n).length = (Nat.digits 10 n).length := by simp [decimal]
  rw [hlen]
  cases hk : (Nat.digits 10 n).length with
  | zero => omega
  | succ k =>
    rw [hk, pow_succ] at hle
    have hpow : k < 10 ^ k := Nat.lt_pow_self (by norm_num)
    rcases Nat.eq_zero_or_pos k with rfl | hk0
    · omega
    · have hk1 : k + 1 < 10 ^ k := by
        obtain ⟨j, rfl⟩ : ∃ j, k = j + 1 := ⟨k - 1, by omega⟩
        have hj : j < 10 ^ j := Nat.lt_pow_self (by norm_num)
        rw [pow_succ]
        omega
      omega

end HyperRuby.Framing
