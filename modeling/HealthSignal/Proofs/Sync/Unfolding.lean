import HealthSignal.Proofs.Sync.Carrier
import Mathlib.Logic.Function.Basic

/-! Any number of components over any probes, with their steps in any order. A component that has nothing left
to do shows what its probes say, and every run of it ends by lowering the signal. -/
namespace HealthSignal

open Carrier

namespace Assembly

/-- What may happen around the components. Nobody takes away a subscription of theirs. -/
inductive Stir (now : Nat) (s : Assembly) : Assembly → Prop
  | feed (feed : Feed) : Stir now s { s with feed := feed }
  | surroundings (w : Surroundings) : Stir now s { s with surroundings := w }
  | nextId : Stir now s { s with nextId := s.nextId + 1 }
  | act (key : String) : Stir now s (s.modifyProbe key (·.act s.feed now))
  | set {key : String} {p q : Probe} (st : Status) : s.probe? key = some p → p.set st = .ok q →
    Stir now s (s.modifyProbe key fun _ => q)
  | mail {key : String} {p q : Probe} (m : Mail) : s.probe? key = some p → p.command m.deliver = .ok q →
    (∀ id ∈ m.about, id < s.nextId ∧ ∀ c ∈ s.carriers, ∀ sub ∈ c.subscriptions, sub.id ≠ id) →
    Stir now s (s.modifyProbe key fun _ => q)
  | stop (key : String) : Stir now s (s.modifyProbe key Probe.stop)

def join (s : Assembly) (c : Carrier) : Assembly := { s with carriers := s.carriers ++ [c] }

/-- What may have come of probes and components by `now`, with the runs of each component, newest first. -/
inductive Unfolds : Nat → Assembly → (Nat → List Episode) → Prop
  | new {now : Nat} {s : Assembly} : s.carriers = [] → s.Fresh → Unfolds now s fun _ => []
  | pass {now later : Nat} {s : Assembly} {logs : Nat → List Episode} : Unfolds now s logs → now ≤ later →
    Unfolds later s logs
  | stir {now : Nat} {s s' : Assembly} {logs : Nat → List Episode} : Unfolds now s logs → Stir now s s' →
    Unfolds now s' logs
  | add {now : Nat} {s : Assembly} {logs : Nat → List Episode} (signal : Signal) (keys : List String)
    (aggregated : Bool) (limit : Duration) (transport : Transport) (strategy : Strategy) (shutdown : Bool) :
    Unfolds now s logs → keys.Nodup → (aggregated = false → ∃ key, keys = [key]) →
    Unfolds now
      (s.join ⟨.start signal keys aggregated limit transport strategy shutdown (s.dead keys) now, []⟩)
      (Function.update logs s.carriers.length [.start s keys])
  | step {now i : Nat} {s s' : Assembly} {logs : Nat → List Episode} {c c' : Carrier} {e e' : Episode}
    {older older' : List Episode} : Unfolds now s logs → s.carriers[i]? = some c → logs i = e :: older →
    Step now s c e older s' c' e' older' →
    Unfolds now { s' with carriers := s.carriers.set i c' } (Function.update logs i (e' :: older'))

variable {now i : Nat} {s s' : Assembly} {logs : Nat → List Episode} {c c' : Carrier} {e e' : Episode}
  {older older' : List Episode}

/-- Probes of which nobody has gone away yet, before there are any components. -/
theorem Unfolds.of_probes {feed : Feed} {probes : List (String × Probe)} {files : FileTree}
    (h : ∀ x ∈ probes, x.2.hub.gone = []) : Unfolds now (.new feed probes files) fun _ => [] := by
  refine .new rfl (.of_forall fun x hx id hid => ?_)
  rw [h x hx] at hid
  exact absurd hid List.not_mem_nil

theorem Stir.evolves (h : Stir now s s') : s'.carriers = s.carriers ∧ ∃ taken, s.Evolves taken s' ∧
    ∀ id ∈ taken, id < s.nextId ∧ ∀ c ∈ s.carriers, ∀ sub ∈ c.subscriptions, sub.id ≠ id := by
  cases h with
  | feed | surroundings => exact ⟨rfl, [], .of_probes (Nat.le_refl _) rfl, by simp⟩
  | nextId => exact ⟨rfl, [], .of_probes (Nat.le_succ _) rfl, by simp⟩
  | act key => exact ⟨rfl, [], .modifyProbe fun p _ => .act p s.feed now, by simp⟩
  | set st hp hq =>
    refine ⟨rfl, [], .modifyProbe fun p' hp' => ?_, by simp⟩
    obtain rfl := Option.some.inj (hp.symm.trans hp')
    exact .set hq
  | mail m hp hq habout =>
    refine ⟨rfl, m.about, .modifyProbe fun p' hp' => ?_, habout⟩
    obtain rfl := Option.some.inj (hp.symm.trans hp')
    exact .mail hq
  | stop key => exact ⟨rfl, [], .modifyProbe fun p _ => .stop p, by simp⟩

/-- Every component belongs together with its runs, and no two share a subscription. -/
structure Sound (s : Assembly) (logs : Nat → List Episode) : Prop where
  fresh : s.Fresh
  keeps : ∀ i c, s.carriers[i]? = some c → ∃ e older, logs i = e :: older ∧ c.Keeps s e older
  apart : ∀ (i j : Nat) (c d : Carrier), s.carriers[i]? = some c → s.carriers[j]? = some d → i ≠ j →
    ∀ x ∈ c.subscriptions, ∀ y ∈ d.subscriptions, x.id ≠ y.id

theorem Sound.stir (h : Sound s logs) (hs : Stir now s s') : Sound s' logs := by
  obtain ⟨hcarriers, taken, he, hfree⟩ := hs.evolves
  refine ⟨h.fresh.evolves he fun id hid => (hfree id hid).1, fun i c hc => ?_, ?_⟩
  · rw [hcarriers] at hc
    obtain ⟨e, older, hlog, hk⟩ := h.keeps i c hc
    refine ⟨e, older, hlog, hk.evolve he fun sub hsub hid => ?_⟩
    exact (hfree _ hid).2 c (List.mem_of_getElem? hc) sub hsub rfl
  · rw [hcarriers]
    exact h.apart

theorem carriers_join {d : Carrier} (hd : (s.join c).carriers[i]? = some d) :
    s.carriers[i]? = some d ∧ i ≠ s.carriers.length ∨ i = s.carriers.length ∧ d = c := by
  have hd : (s.carriers ++ [c])[i]? = some d := hd
  by_cases hi : i < s.carriers.length
  · rw [List.getElem?_append_left hi] at hd
    exact Or.inl ⟨hd, Nat.ne_of_lt hi⟩
  · rw [List.getElem?_append_right (Nat.le_of_not_lt hi), List.getElem?_singleton] at hd
    split at hd
    · next heq => exact Or.inr ⟨by omega, (Option.some.inj hd).symm⟩
    · simp at hd

theorem carriers_set (hc : s.carriers[i]? = some c) {j : Nat} {d : Carrier}
    (hd : (s.carriers.set i c')[j]? = some d) : j = i ∧ d = c' ∨ j ≠ i ∧ s.carriers[j]? = some d := by
  by_cases hj : j = i
  · subst hj
    rw [List.getElem?_set_self (List.getElem?_eq_some_iff.mp hc).1] at hd
    exact Or.inl ⟨rfl, (Option.some.inj hd).symm⟩
  · rw [List.getElem?_set_ne (Ne.symm hj)] at hd
    exact Or.inr ⟨hj, hd⟩

theorem Sound.join (h : Sound s logs) (hk : c.Keeps s e []) (hsubs : c.subscriptions = []) :
    Sound (s.join c) (Function.update logs s.carriers.length [e]) := by
  have he : s.Evolves [] (s.join c) := .of_probes (Nat.le_refl _) rfl
  refine ⟨h.fresh.evolves he (by simp), fun i d hd => ?_, fun i j d d' hd hd' hij x hx y hy => ?_⟩
  · obtain ⟨hd, hi⟩ | ⟨rfl, rfl⟩ := carriers_join hd
    · obtain ⟨e', older, hlog, hk'⟩ := h.keeps i d hd
      exact ⟨e', older, by rw [Function.update_of_ne hi, hlog], hk'.evolve he (by simp)⟩
    · exact ⟨e, [], Function.update_self .., hk.evolve he (by simp)⟩
  · obtain ⟨hd, -⟩ | ⟨-, rfl⟩ := carriers_join hd
    · obtain ⟨hd', -⟩ | ⟨-, rfl⟩ := carriers_join hd'
      · exact h.apart i j d d' hd hd' hij x hx y hy
      · simp [hsubs] at hy
    · simp [hsubs] at hx

/-- What a component subscribes to in a step is not what another one is subscribed to. -/
theorem Sound.apart_step (h : Sound s logs) (hc : s.carriers[i]? = some c)
    (hstep : Step now s c e older s' c' e' older') {j : Nat} {d : Carrier} (hd : s.carriers[j]? = some d)
    (hj : j ≠ i) : ∀ x ∈ c'.subscriptions, ∀ y ∈ d.subscriptions, x.id ≠ y.id := by
  intro x hx y hy
  obtain hold | ⟨hnext, -⟩ := hstep.id_of_mem x hx
  · obtain ⟨x', hx', heq⟩ := List.mem_map.mp hold
    rw [← heq]
    exact h.apart i j c d hc hd hj.symm x' hx' y hy
  · obtain ⟨e, older, -, hk⟩ := h.keeps j d hd
    rw [hnext]
    exact Nat.ne_of_gt (hk.known y hy)

theorem Sound.step (h : Sound s logs) (hc : s.carriers[i]? = some c) (hlog : logs i = e :: older)
    (hstep : Step now s c e older s' c' e' older') :
    Sound { s' with carriers := s.carriers.set i c' } (Function.update logs i (e' :: older')) := by
  obtain ⟨e₀, older₀, hlog₀, hk⟩ := h.keeps i c hc
  obtain ⟨rfl, rfl⟩ := List.cons.inj (hlog.symm.trans hlog₀)
  have hids : ∀ id ∈ c.subscriptions.map (·.id), id < s.nextId := List.forall_mem_map.mpr hk.known
  have hforget : s'.Evolves [] { s' with carriers := s.carriers.set i c' } :=
    .of_probes (Nat.le_refl _) rfl
  have he := hstep.evolves.trans (hforget.mono (List.nil_subset _))
  refine ⟨h.fresh.evolves he hids, fun j d hd => ?_, fun j k d d' hd hd' hjk x hx y hy => ?_⟩
  · obtain ⟨rfl, rfl⟩ | ⟨hj, hold⟩ := carriers_set hc hd
    · exact ⟨e', older', Function.update_self .., (hk.step h.fresh hstep).evolve hforget (by simp)⟩
    · obtain ⟨e, older, hlogj, hkd⟩ := h.keeps j d hold
      refine ⟨e, older, by rw [Function.update_of_ne hj, hlogj], hkd.evolve he fun sub hsub hid => ?_⟩
      obtain ⟨x, hx, heq⟩ := List.mem_map.mp hid
      exact h.apart i j c d hc hold hj.symm x hx sub hsub heq
  · obtain ⟨rfl, rfl⟩ | ⟨hj, hold⟩ := carriers_set hc hd
    · obtain ⟨rfl, -⟩ | ⟨hk, hold'⟩ := carriers_set hc hd'
      · exact absurd rfl hjk
      · exact h.apart_step hc hstep hold' hk x hx y hy
    · obtain ⟨rfl, rfl⟩ | ⟨-, hold'⟩ := carriers_set hc hd'
      · exact (h.apart_step hc hstep hold hj y hy x hx).symm
      · exact h.apart j k d d' hold hold' hjk x hx y hy

theorem Unfolds.sound (h : Unfolds now s logs) : Sound s logs := by
  induction h with
  | new hcarriers hfresh => exact ⟨hfresh, by simp [hcarriers], by simp [hcarriers]⟩
  | pass _ _ ih => exact ih
  | stir _ hs ih => exact ih.stir hs
  | @add now s logs signal keys aggregated limit transport strategy shutdown _ hdistinct hsingle ih =>
    refine ih.join ⟨hdistinct, hsingle, .start .., ?_, Episode.Awaits.start s keys, by simp, fun _ => .start ..⟩ rfl
    exact List.forall_mem_singleton.mpr (.start s keys)
  | step _ hc hlog hstep ih => exact ih.step hc hlog hstep

end Assembly
end HealthSignal
