import HealthSignal.Transport.Address

/-!
A listening socket that is open while the signal is up. Port zero asks for a port that is free.
-/
namespace HealthSignal

structure Sockets where
  listening : List SocketAddress
  /-- The port that the next request for a free one gets. -/
  freePort : Nat
  deriving DecidableEq, Repr

namespace Sockets

def empty : Sockets := ⟨[], 32768⟩

def listen (s : Sockets) (a : SocketAddress) : Except IoError (SocketAddress × Sockets) :=
  match a.ip.refusal? with
  | some e => .error e
  | none =>
    if a.port = 0 then
      let a := { a with port := s.freePort }
      .ok (a, ⟨a :: s.listening, s.freePort + 1⟩)
    else if s.listening.any a.clashes then .error .addressInUse
    else .ok (a, { s with listening := a :: s.listening })

def close (s : Sockets) (a : SocketAddress) : Sockets :=
  { s with listening := s.listening.filter (· ≠ a) }

end Sockets

structure SignalSocket where
  address : String
  bound : Option SocketAddress
  deriving DecidableEq, Repr

namespace SignalSocket

def new (address : String) : SignalSocket := ⟨address, none⟩

def go (k : SignalSocket) (s : Sockets) : Except IoError (SignalSocket × Sockets) :=
  match k.bound with
  | some _ => .ok (k, s)
  | none => do
    let (a, s) ← s.listen (← SocketAddress.resolve k.address)
    return ({ k with bound := some a }, s)

def stop (k : SignalSocket) (s : Sockets) : SignalSocket × Sockets :=
  match k.bound with
  | some a => ({ k with bound := none }, s.close a)
  | none => (k, s)

def call (k : SignalSocket) (s : Sockets) :
    Decision → (SignalSocket × Sockets) × Except IoError Unit
  | .go _ =>
    match k.go s with
    | .ok next => (next, .ok ())
    | .error e => ((k, s), .error e)
  | .stop _ => (k.stop s, .ok ())

end SignalSocket
end HealthSignal
