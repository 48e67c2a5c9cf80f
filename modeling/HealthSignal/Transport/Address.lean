import HealthSignal.Text.Decimal
import HealthSignal.Text.Parts
import HealthSignal.Text.Radix
import HealthSignal.Transport.Error

/-!
Internet addresses: their literals, the host names that stand for them, and the texts that show them.
-/
namespace HealthSignal

inductive IpAddress
  | v4 (bits : BitVec 32)
  /-- The scope tells the links of a host apart; zero names none. -/
  | v6 (bits : BitVec 128) (scope : UInt32)
  deriving DecidableEq, Repr

namespace IpAddress

def ofWords (base : Nat) (words : List Nat) : Nat := words.foldl (fun n w => base * n + w) 0

def words (base : Nat) : (width : Nat) → Nat → List Nat
  | 0, _ => []
  | width + 1, n => words base width (n / base) ++ [n % base]

/-! ### IPv4 -/

def readOctet? (cs : List Char) : Option Nat :=
  if cs.length > 3 ∨ (cs.length > 1 ∧ cs.head? = some '0') then none
  else (Text.readDigits? cs).filter (· < 256)

def readV4? (cs : List Char) : Option (BitVec 32) := do
  let parts := Text.parts '.' cs
  if parts.length = 4 then return .ofNat 32 (ofWords 256 (← parts.mapM readOctet?)) else none

/-- A number after `0x` is hexadecimal, after another leading zero octal, and decimal elsewhere. -/
def readNumber? : List Char → Option Nat
  | '0' :: 'x' :: rest | '0' :: 'X' :: rest => Text.readIn? 16 rest
  | '0' :: c :: rest => Text.readIn? 8 (c :: rest)
  | cs => Text.readIn? 10 cs

/-- The short form of a host name: up to four numbers between dots, where the last one fills all the
octets that are left. -/
def readShort? (cs : List Char) : Option (BitVec 32) := do
  let numbers ← (Text.parts '.' cs).mapM readNumber?
  let octets := numbers.dropLast
  let last := numbers.getLast?.getD 0
  let width := 4 - octets.length
  if octets.length ≤ 3 ∧ octets.all (· < 256) ∧ last < Nat.pow 256 width then
    return .ofNat 32 (ofWords 256 (octets ++ words 256 width last))
  else none

def textV4 (bits : BitVec 32) : List Char :=
  ['.'].intercalate ((words 256 4 bits.toNat).map Text.digits)

/-! ### IPv6 -/

def readGroup? (cs : List Char) : Option Nat := if cs.length ≤ 4 then Text.readIn? 16 cs else none

/-- Groups of sixteen bits. An IPv4 address may stand for the last two of them. -/
def readGroups? : List (List Char) → Option (List Nat)
  | [] => some []
  | [part] =>
    match readV4? part with
    | some bits => some (words 65536 2 bits.toNat)
    | none => (readGroup? part).map ([·])
  | part :: rest => do return (← readGroup? part) :: (← readGroups? rest)

def cutGap? : List Char → Option (List Char × List Char)
  | ':' :: ':' :: rest => some ([], rest)
  | c :: rest => (cutGap? rest).map fun (before, after) => (c :: before, after)
  | [] => none

def groupParts (cs : List Char) : List (List Char) := if cs = [] then [] else Text.parts ':' cs

/-- A literal of eight groups, where two colons in a row may stand for one or more groups of zero. -/
def readV6? (cs : List Char) : Option (BitVec 128) :=
  match cutGap? cs with
  | none => do
    let groups ← readGroups? (groupParts cs)
    if groups.length = 8 then return .ofNat 128 (ofWords 65536 groups) else none
  | some (before, after) => do
    let before ← (groupParts before).mapM readGroup?
    let after ← readGroups? (groupParts after)
    let count := before.length + after.length
    if count < 8 then
      return .ofNat 128 (ofWords 65536 (before ++ List.replicate (8 - count) 0 ++ after))
    else none

def readScoped? (cs : List Char) : Option IpAddress := do
  let bits ← readV6? (cs.takeWhile (· ≠ '%'))
  match cs.dropWhile (· ≠ '%') with
  | [] => return .v6 bits 0
  | _ :: scope => return .v6 bits (.ofNat (← (Text.readDigits? scope).filter (· < UInt32.size)))

def mapped? (bits : BitVec 128) : Option (BitVec 32) :=
  if bits.toNat / UInt32.size = 0xFFFF then some (.ofNat 32 bits.toNat) else none

/-- Where the longest run of zeros starts, the first of several, and its length. -/
def longestGap (groups : List Nat) : Nat × Nat :=
  (List.range groups.length).foldl
    (fun best i =>
      let run := ((groups.drop i).takeWhile (· == 0)).length
      if best.2 < run then (i, run) else best)
    (0, 0)

/-- The shortest text: two colons in a row stand for the longest run of at least two groups of zero. -/
def textV6 (bits : BitVec 128) : List Char :=
  match mapped? bits with
  | some bits => "::ffff:".toList ++ textV4 bits
  | none =>
    let groups := words 65536 8 bits.toNat
    let write (groups : List Nat) : List Char := [':'].intercalate (groups.map (Nat.toDigits 16))
    let (start, run) := longestGap groups
    if run < 2 then write groups
    else write (groups.take start) ++ "::".toList ++ write (groups.drop (start + run))

/-! ### Hosts -/

def lookup? (name : List Char) : Option IpAddress :=
  match readShort? name with
  | some bits => some (.v4 bits)
  | none =>
    if name.map Char.toLower = "localhost".toList then some (.v4 0x7F000001) else readScoped? name

def unmap : IpAddress → IpAddress
  | .v6 bits scope =>
    match mapped? bits with
    | some bits => .v4 bits
    | none => .v6 bits scope
  | ip => ip

def wild (ip : IpAddress) : Bool :=
  match ip.unmap with
  | .v4 bits => bits == 0
  | .v6 bits _ => bits == 0

/-- Why nothing can listen at an address. The host has one link and takes every IPv4 address for its own,
but no IPv6 address. -/
def refusal? (ip : IpAddress) : Option IoError :=
  match ip.unmap with
  | .v4 _ => none
  | .v6 bits scope =>
    let head := bits.toNat / Nat.pow 2 112
    if bits = 0 then none
    else if 0xFF00 ≤ head then some .invalidArgument
    else if 0xFE80 ≤ head ∧ head < 0xFEC0 then
      some (if scope = 0 then .invalidArgument
        else if scope = 1 then .addressNotAvailable
        else .noSuchDevice)
    else some .addressNotAvailable

end IpAddress

structure SocketAddress where
  ip : IpAddress
  port : Nat
  deriving DecidableEq, Repr

namespace SocketAddress

def readPort? (cs : List Char) : Option Nat := (Text.readDigits? cs).filter (· < UInt16.size)

def cut? (cs : List Char) : Option (List Char × List Char) :=
  let after := cs.reverse.takeWhile (· ≠ ':')
  match cs.reverse.dropWhile (· ≠ ':') with
  | _ :: before => some (before.reverse, after.reverse)
  | [] => none

/-- The host of an address literal. IPv6 addresses stand in brackets. -/
def readHost? (cs : List Char) : Option IpAddress :=
  if cs.head? = some '[' ∧ cs.getLast? = some ']' then IpAddress.readScoped? cs.tail.dropLast
  else (IpAddress.readV4? cs).map .v4

def literal? (s : String) : Option SocketAddress := do
  let (host, port) ← cut? s.toList
  return ⟨← readHost? host, ← readPort? port⟩

def resolve (s : String) : Except IoError SocketAddress :=
  match literal? s with
  | some a => .ok a
  | none =>
    match cut? s.toList with
    | none => .error .notASocketAddress
    | some (host, port) =>
      match (Text.readWord? port).filter (· < UInt16.size) with
      | none => .error .invalidPort
      | some port =>
        if host.contains '\x00' then .error .nulByte
        else match IpAddress.lookup? host with
          | some ip => .ok ⟨ip, port⟩
          | none => .error .unknownHost

def text (a : SocketAddress) : String :=
  let host := match a.ip with
    | .v4 bits => IpAddress.textV4 bits
    | .v6 bits scope =>
      let scope := if scope = 0 then [] else '%' :: Text.digits scope.toNat
      '[' :: IpAddress.textV6 bits ++ scope ++ [']']
  String.ofList (host ++ ':' :: Text.digits a.port)

def clashes (a b : SocketAddress) : Bool :=
  a.port == b.port && (a.ip.unmap == b.ip.unmap || a.ip.wild || b.ip.wild)

end SocketAddress
end HealthSignal
