import HealthSignal.Json.Status
import HealthSignal.Probe.Basic

/-!
The HTTP face of the two signals: `/alive` shows liveness and `/ready` readiness. A probe that cannot
be asked counts as down.
-/
namespace HealthSignal.Http

/-- The part of a request target that names a resource: without scheme, host, query and fragment. -/
def path (target : List Char) : List Char :=
  let inPath (c : Char) : Bool := c ≠ '?' && c ≠ '#'
  match target with
  | '/' :: _ => target.takeWhile inPath
  | _ =>
    match target.dropWhile (· ≠ ':') with
    | ':' :: '/' :: '/' :: rest =>
      let rest := rest.dropWhile fun c => c ≠ '/' && inPath c
      if rest.head? = some '/' then rest.takeWhile inPath else ['/']
    | _ => target.takeWhile inPath

def route? (target : String) : Option Signal :=
  let p := path target.toList
  if p = "/alive".toList then some .liveness
  else if p = "/ready".toList then some .readiness
  else none

structure Response where
  code : Nat
  contentType : Option String
  allow : Option String
  body : String
  deriving DecidableEq, Repr

def noResponse : String := "probe did not respond"

def statusOf : Except ProbeError Status → Status
  | .ok s => s
  | .error (.unanswered _ _) => .bad noResponse
  | .error e => .bad (noResponse ++ ": " ++ e.message)

def showStatus (s : Status) : Response :=
  ⟨if s.up then 200 else 503, some "application/json", none, s.toJson⟩

/-- Answers a request, given how probes are asked. `HEAD` is `GET` without the body. -/
def respond (ask : Signal → Except ProbeError Status) (method target : String) : Response :=
  match route? target with
  | none => ⟨404, none, none, ""⟩
  | some signal =>
    if method = "GET" then showStatus (statusOf (ask signal))
    else if method = "HEAD" then { showStatus (statusOf (ask signal)) with body := "" }
    else ⟨405, none, some "GET,HEAD", ""⟩

end HealthSignal.Http
