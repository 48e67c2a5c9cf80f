import HealthSignal.Text.Decimal

/-!
Decimal numbers through the eyes of 64-bit binary floating point: the nearest such number, and the
shortest decimal that is nearest to it.
-/
namespace HealthSignal.Decimal

/-- The number `mantissa · 2 ^ exponent`, with a mantissa below `2 ^ 53`. -/
structure Binary64 where
  mantissa : Nat
  exponent : Int
  deriving DecidableEq, Repr

def leading : Nat := 4503599627370496

def roundDiv (n d : Nat) : Nat :=
  let q := n / d
  let r := n % d
  if 2 * r < d then q
  else if 2 * r > d then q + 1
  else if q % 2 = 0 then q else q + 1

def scaled (n base : Nat) (e : Int) : Nat × Nat :=
  if e < 0 then (n, Nat.pow base e.natAbs) else (n * Nat.pow base e.natAbs, 1)

/-- The nearest number to `m · 10 ^ e` with a bounded exponent; `none` if it is too large. -/
def nearest? (m : Nat) (e : Int) : Option Binary64 :=
  let size : Int := (Text.digits m).length + e
  if m = 0 ∨ size < -330 then some ⟨0, -1074⟩
  else if size > 310 then none
  else
    let (n, d) := scaled m 10 e
    let guess : Int := (Nat.log2 n : Int) - (Nat.log2 d : Int) - 52
    let tooBig (q : Int) : Bool :=
      let (s, t) := scaled 1 2 q
      n * t ≥ 2 * leading * (d * s)
    let tooSmall (q : Int) : Bool :=
      let (s, t) := scaled 1 2 q
      n * t < leading * (d * s)
    let q := if tooBig guess then guess + 1 else if tooSmall guess then guess - 1 else guess
    let q := max q (-1074)
    let (s, t) := scaled 1 2 q
    let mantissa := roundDiv (n * t) (d * s)
    let b : Binary64 := if mantissa = 2 * leading then ⟨leading, q + 1⟩ else ⟨mantissa, q⟩
    if b.exponent > 971 then none else some b

namespace Binary64

def magnitude (n d : Nat) : (steps : Nat) → Int → Int
  | 0, e => e
  | steps + 1, e =>
    let (s, t) := scaled 1 10 e
    if n * t < s * d then e else magnitude n d steps (e + 1)

/-- The shortest digits `c` and the exponent `s` such that `c · 10 ^ s` rounds to the number; of two
that are as short the nearer, of two as near the larger. -/
def shortest (b : Binary64) : Nat × Int :=
  if b.mantissa = 0 then (0, 0)
  else
    -- In quarters of the last place: the number, and the ends of the interval that rounds to it.
    let value := 4 * b.mantissa
    let low := if b.mantissa = leading ∧ b.exponent > -1074 then value - 1 else value - 2
    let high := value + 2
    let (unit, whole) := scaled 1 2 (b.exponent - 2)
    let size := magnitude (value * unit) whole 700 (-330)
    let inside (c : Nat) (s : Int) : Bool :=
      let (p, q) := scaled c 10 s
      let x := p * whole
      let l := low * unit * q
      let h := high * unit * q
      if b.mantissa % 2 = 0 then l ≤ x && x ≤ h else l < x && x < h
    let hit? (n : Nat) : Option (Nat × Int) :=
      let s := size - n
      let (p, q) := scaled 1 10 s
      -- The two neighbours of the number among the multiples of `10 ^ s`.
      let c := (value * unit * q) / (p * whole)
      let r := (value * unit * q) % (p * whole)
      match inside c s, inside (c + 1) s with
      | true, true => some (if 2 * r < p * whole then c else c + 1, s)
      | true, false => some (c, s)
      | false, true => some (c + 1, s)
      | false, false => none
    ((List.range 18).findSome? fun n => if n = 0 then none else hit? n).getD (b.mantissa, 0)

def positional (c : Nat) (s : Int) : String :=
  let ds := Text.digits c
  if 0 ≤ s then String.ofList (ds ++ List.replicate s.natAbs '0')
  else
    let places := s.natAbs
    let ds := List.replicate (places + 1 - ds.length) '0' ++ ds
    let cut := ds.length - places
    let part := (ds.drop cut).reverse.dropWhile (· == '0')
    String.ofList (ds.take cut ++ if part = [] then [] else '.' :: part.reverse)

def text (b : Binary64) : String :=
  let (c, s) := b.shortest
  let digits := positional c s
  if digits.toList.contains '.' then digits else digits ++ ".0"

end Binary64
end HealthSignal.Decimal
