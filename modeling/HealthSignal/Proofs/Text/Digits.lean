import HealthSignal.Proofs.Text.Utf8
import HealthSignal.Text.Decimal

/-! Decimal digits: what is written reads back, and digits of one width are in the order of their
numbers. -/
namespace HealthSignal.Text

theorem toNat_digitChar (d : Nat) : (digitChar d).toNat = 48 + d % 10 := by
  have h : (48 + d % 10).isValidChar := by left; omega
  rw [digitChar, Char.ofNat, dif_pos h]
  rfl

theorem isDigit_digitChar (d : Nat) : isDigit (digitChar d) = true := by
  simp only [isDigit, toNat_digitChar, Bool.and_eq_true, decide_eq_true_eq]
  omega

theorem all_isDigit_digits (n : Nat) : (digits n).all isDigit = true := by
  fun_induction digits n with
  | case1 n h => simp [isDigit_digitChar]
  | case2 n h ih => simp [isDigit_digitChar, ih]

theorem digits_ne_nil (n : Nat) : digits n ≠ [] := by
  unfold digits
  split <;> simp

theorem digitsValue_concat (cs : List Char) (c : Char) :
    digitsValue (cs ++ [c]) = 10 * digitsValue cs + (c.toNat - 48) := by
  simp [digitsValue]

theorem digitsValue_digits (n : Nat) : digitsValue (digits n) = n := by
  fun_induction digits n with
  | case1 n h => simp [digitsValue, toNat_digitChar]; omega
  | case2 n h ih =>
    rw [digitsValue_concat, ih, toNat_digitChar]
    omega

/-- Only zero is written with a leading zero. -/
theorem head_digits {n : Nat} (h : 0 < n) : ∀ c ∈ (digits n).head?, c ≠ '0' := by
  fun_induction digits n with
  | case1 n hn =>
    simp only [List.head?_cons, Option.mem_def, Option.some.injEq, forall_eq']
    intro he
    have := congrArg Char.toNat he
    rw [toNat_digitChar] at this
    simp at this
    omega
  | case2 n hn ih =>
    rw [List.head?_append, Option.or_of_isSome (by simp [digits_ne_nil])]
    exact ih (by omega)

theorem encode_digitChar (d : Nat) :
    String.utf8EncodeChar (digitChar d) = [UInt8.ofNat (48 + d % 10)] := by
  have h : (digitChar d).val.toNat = 48 + d % 10 := toNat_digitChar d
  have hd : 48 + d % 10 ≤ 127 := by omega
  simp only [String.utf8EncodeChar, h, hd, if_true]

theorem digitByte_lt_iff (a b : Nat) :
    UInt8.ofNat (48 + a % 10) < UInt8.ofNat (48 + b % 10) ↔ a % 10 < b % 10 := by
  rw [UInt8.lt_iff_toNat_lt, UInt8.toNat_ofNat', UInt8.toNat_ofNat']
  omega

def digitBytes (width n : Nat) : List UInt8 :=
  (fixedDigits width n).flatMap String.utf8EncodeChar

theorem digitBytes_succ (width n : Nat) :
    digitBytes (width + 1) n = digitBytes width (n / 10) ++ [UInt8.ofNat (48 + n % 10)] := by
  simp [digitBytes, fixedDigits, encode_digitChar]

@[simp] theorem length_digitBytes (width n : Nat) : (digitBytes width n).length = width := by
  induction width generalizing n with
  | zero => rfl
  | succ width ih => simp [digitBytes_succ, ih]

theorem digitBytes_lt {width m n : Nat} (hn : n < Nat.pow 10 width) (h : m < n) :
    digitBytes width m < digitBytes width n := by
  induction width generalizing m n with
  | zero =>
    have hn : n < 1 := hn
    omega
  | succ width ih =>
    have hp : Nat.pow 10 (width + 1) = Nat.pow 10 width * 10 := rfl
    rw [digitBytes_succ, digitBytes_succ, concat_lt_concat_iff (by simp), digitByte_lt_iff]
    obtain hlt | heq : m / 10 < n / 10 ∨ m / 10 = n / 10 := by omega
    · exact Or.inl (ih (by omega) hlt)
    · exact Or.inr ⟨by rw [heq], by omega⟩

/-- Padded numbers are in the order of their values. -/
theorem digitBytes_lt_iff {width m n : Nat} (hm : m < Nat.pow 10 width)
    (hn : n < Nat.pow 10 width) : digitBytes width m < digitBytes width n ↔ m < n := by
  constructor
  · intro h
    obtain hlt | rfl | hgt := Nat.lt_trichotomy m n
    · exact hlt
    · exact absurd h (List.lt_irrefl _)
    · exact absurd h (List.lt_asymm (digitBytes_lt hm hgt))
  · exact digitBytes_lt hn

/-- Digits hold no byte of a colon or of anything after it. -/
theorem lt_colon_of_mem_digitBytes {width n : Nat} {b : UInt8} (h : b ∈ digitBytes width n) :
    b < 58 := by
  induction width generalizing n with
  | zero => simp [digitBytes, fixedDigits] at h
  | succ width ih =>
    rw [digitBytes_succ, List.mem_append, List.mem_singleton] at h
    obtain h | rfl := h
    · exact ih h
    · rw [UInt8.lt_iff_toNat_lt, UInt8.toNat_ofNat']
      simp
      omega

end HealthSignal.Text
