/-!
Numbers written in a base of up to sixteen. Letters stand for the digits from ten on, in either case.
-/
namespace HealthSignal.Text

def hexValue? (c : Char) : Option Nat :=
  let n := c.toNat
  if 48 ≤ n ∧ n ≤ 57 then some (n - 48)
  else if 97 ≤ n ∧ n ≤ 102 then some (n - 87)
  else if 65 ≤ n ∧ n ≤ 70 then some (n - 55)
  else none

def hexWord? (a b c d : Char) : Option Nat := do
  let a ← hexValue? a
  let b ← hexValue? b
  let c ← hexValue? c
  let d ← hexValue? d
  return ((a * 16 + b) * 16 + c) * 16 + d

def isDigitIn (base : Nat) (c : Char) : Bool := (hexValue? c).any (· < base)

def valueIn (base : Nat) (cs : List Char) : Nat :=
  cs.foldl (fun n c => base * n + (hexValue? c).getD 0) 0

def readIn? (base : Nat) (cs : List Char) : Option Nat :=
  if cs ≠ [] ∧ cs.all (isDigitIn base) then some (valueIn base cs) else none

theorem hexWord?_lt {a b c d : Char} {n : Nat} (h : hexWord? a b c d = some n) : n < 65536 := by
  have digit {c : Char} {k : Nat} (h : hexValue? c = some k) : k < 16 := by grind [hexValue?]
  simp only [hexWord?, bind, Option.bind_eq_some_iff, pure, Option.some.injEq] at h
  obtain ⟨w, hw, x, hx, y, hy, z, hz, rfl⟩ := h
  have := digit hw
  have := digit hx
  have := digit hy
  have := digit hz
  omega

end HealthSignal.Text
