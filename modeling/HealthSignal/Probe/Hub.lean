import HealthSignal.Status

/-!
The hub of a probe: its current status and the subscribers it is pushed to. Deliveries are kept in a
log, newest first. A subscriber whose receiver is gone gets nothing; the hub forgets it when it
learns of the loss, by a failed delivery or by a notice.
-/
namespace HealthSignal

abbrev SubscriberId := Nat

structure Hub where
  current : Status
  /-- Everybody registered, once each. -/
  subscribers : List SubscriberId
  /-- Whose receivers are gone. -/
  gone : List SubscriberId
  /-- What was delivered to whom, newest first. -/
  log : List (SubscriberId × Status)
  deriving DecidableEq, Repr

namespace Hub

def new (initial : Status) : Hub := ⟨initial, [], [], []⟩

def push (h : Hub) (id : SubscriberId) : Hub :=
  if h.gone.contains id then h else { h with log := (id, h.current) :: h.log }

/-- Registers `id` unless it is registered, and sends it the current status in any case. -/
def subscribe (h : Hub) (id : SubscriberId) : Hub :=
  let h := h.push id
  if h.subscribers.contains id then h else { h with subscribers := h.subscribers ++ [id] }

/-- Forgets `id`; both a request of the subscriber and a notice of its loss do this. -/
def remove (h : Hub) (id : SubscriberId) : Hub :=
  { h with subscribers := h.subscribers.filter (· ≠ id) }

def publish (h : Hub) (s : Status) : Hub :=
  let live := h.subscribers.filter (!h.gone.contains ·)
  { h with
    current := s
    subscribers := live
    log := (live.map (·, s)).reverse ++ h.log }

def transition (h : Hub) (s : Status) : Hub := if s = h.current then h else h.publish s

def lose (h : Hub) (id : SubscriberId) : Hub :=
  if h.gone.contains id then h else { h with gone := id :: h.gone }

def settle (h : Hub) : Hub :=
  { h with subscribers := h.subscribers.filter (!h.gone.contains ·) }

def received (h : Hub) (id : SubscriberId) : List Status :=
  (h.log.filter (·.1 == id)).reverse.map (·.2)

end Hub
end HealthSignal
