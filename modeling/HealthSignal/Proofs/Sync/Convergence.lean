import HealthSignal.Proofs.Sync.Unfolding

/-! What the signal shows once a component has nothing left to do. -/
namespace HealthSignal

namespace Carrier
variable {now : Nat} {s : Assembly} {c : Carrier} {e : Episode} {older : List Episode}

structure Settled (now : Nat) (s : Assembly) (c : Carrier) (e : Episode) : Prop where
  due : ∀ d, c.sync.due = some d → now < d
  awaited : e.awaited = []
  forwarded : ∀ sub ∈ c.subscriptions, s.forward c.sync sub = (c.sync, some sub)

theorem forward_eq_self {sync : Sync} {sub : Subscription} (h : s.forward sync sub = (sync, some sub)) :
    ∃ p, s.probe? sub.key = some p ∧ p.running = true ∧ sub.seen = (p.hub.received sub.id).length := by
  cases hp : s.probe? sub.key with
  | none => simp [Assembly.forward, hp] at h
  | some p =>
    cases hr : p.running with
    | false => simp [Assembly.forward_of_stopped hp hr] at h
    | true =>
      rw [Assembly.forward_of_running hp hr] at h
      have hsub := Option.some.inj (congrArg Prod.snd h)
      exact ⟨p, rfl, hr, (congrArg Subscription.seen hsub).symm⟩

theorem Settled.queue (h : c.Settled now s e) (hrun : c.sync.running = true)
    (hidle : c.sync.run.activity = .idle) : c.sync.run.queue = [] ∧ c.sync.run.exhausted = false := by
  have hphase : c.sync.supervisor.phase = .running := by simpa [Sync.running] using hrun
  have hready : c.sync.run.ready c.sync.supervisor.shutdown = false := by
    rw [← Bool.not_eq_true]
    intro hready
    have hdue := h.due 0
    simp [Sync.due, hphase, hready] at hdue
  simp only [Relay.ready, hidle, beq_self_eq_true, Bool.true_and, Bool.or_eq_false_iff,
    Bool.not_eq_false', List.isEmpty_iff] at hready
  exact ⟨hready.1.2, hready.2⟩

theorem Settled.news (h : c.Settled now s e) (ha : e.Attends s c.sync.keys c.subscriptions) {key : String}
    (hkey : key ∈ c.sync.keys) :
    (∃ p, ∃ statuses : List Status, s.probe? key = some p ∧ p.running = true ∧
      newsOf key e.transcript.heard = statuses.map some ∧ statuses.getLast? = some p.hub.current) ∨
    none ∈ newsOf key e.transcript.heard ∧ s.alive key = false := by
  obtain hwait | ⟨sub, hsub, rfl⟩ | hover := ha.every key hkey
  · simp [h.awaited] at hwait
  · obtain ⟨p, hp, hr, hseen⟩ := forward_eq_self (h.forwarded sub hsub)
    obtain ⟨p', hp', -, hnews, hholds⟩ := ha.current sub hsub
    obtain rfl := Option.some.inj (hp.symm.trans hp')
    refine Or.inl ⟨p, p.hub.received sub.id, hp, hr, ?_, (hholds hr).last⟩
    rw [hnews, hseen, List.take_length]
  · exact Or.inr hover

theorem Settled.slot (h : c.Settled now s e) (ha : e.Attends s c.sync.keys c.subscriptions) {key : String}
    (hkey : key ∈ c.sync.keys) :
    (∃ p, s.probe? key = some p ∧ p.running = true ∧
      (newsOf key e.transcript.heard).foldl Slot.after .pending = .reported p.hub.current) ∨
    (newsOf key e.transcript.heard).foldl Slot.after .pending = .terminated ∧ s.alive key = false := by
  obtain ⟨p, statuses, hp, hr, hnews, hlast⟩ | ⟨hnone, hdead⟩ := h.news ha hkey
  · exact Or.inl ⟨p, hp, hr, by rw [hnews, Slot.foldl_after_statuses hlast]⟩
  · exact Or.inr ⟨Slot.foldl_after_of_mem hnone _, hdead⟩

/-- A run that follows a single probe called for its current status last. -/
theorem Settled.single (h : c.Settled now s e) (hk : c.Keeps s e older) (hrun : c.sync.running = true)
    (hidle : c.sync.run.activity = .idle) (hsingle : c.sync.aggregated = false) :
    ∃ key p, c.sync.keys = [key] ∧ s.probe? key = some p ∧ p.running = true ∧
      e.transcript.decisions.getLast? = some p.hub.current.decision := by
  obtain ⟨key, hkeys⟩ := hk.single hsingle
  obtain ⟨hqueue, -⟩ := h.queue hrun hidle
  obtain ⟨hp, taken, ht⟩ := hk.accounts.run.of_idle hidle
  have hblank : c.sync.blank = none := by simp [Sync.blank, hsingle]
  have htaken : taken = e.transcript.heard := by simp [ht.heard, hqueue]
  have ha := hk.attends (by simp [Relay.listening, hidle])
  obtain ⟨p, statuses, hprobe, hr, hnews, hlast⟩ | ⟨hnone, -⟩ := h.news ha (hkeys ▸ List.mem_cons_self)
  · refine ⟨key, p, hkeys, hprobe, hr, ?_⟩
    have hall : ∀ u ∈ e.transcript.heard, u.key = key := fun u hu => by
      simpa [hkeys] using (hk.delivered e List.mem_cons_self).known u hu
    have hstatuses : e.transcript.heard.filterMap (·.status) = statuses := by
      rw [← statusesOf_eq_filterMap hall, statusesOf, hnews]
      simp
    rw [ht.decisions, hblank, htaken, Relay.mirror_none, hstatuses, List.getLast?_map, hlast]
    rfl
  · -- The end of its probe would have ended the run.
    obtain ⟨u, hu, hus⟩ := List.mem_map.mp hnone
    exact absurd hus (ht.statuses hblank u (htaken ▸ List.mem_of_mem_filter hu))

/-- Once a run has caught up, what it knows is up exactly if all of its probes are running and up. -/
theorem Settled.isUp_iff (h : c.Settled now s e) (ha : e.Attends s c.sync.keys c.subscriptions)
    (hkeys : c.sync.keys ≠ []) :
    (Aggregate.ofNews c.sync.keys e.transcript.heard).isUp = true ↔
      ∀ key ∈ c.sync.keys, ∃ p, s.probe? key = some p ∧ p.running = true ∧ p.hub.current.up = true := by
  have hslot := Aggregate.slot?_ofNews c.sync.keys e.transcript.heard
  have hcoherent := Aggregate.Coherent.ofNews c.sync.keys e.transcript.heard
  rw [hcoherent.isUp_iff]
  constructor
  · rintro ⟨-, hall⟩ key hkey
    have hup := hall key _ (by rw [hslot, if_pos hkey])
    obtain ⟨p, hp, hr, hstatus⟩ | ⟨hstatus, -⟩ := h.slot ha hkey
    · rw [hstatus] at hup
      exact ⟨p, hp, hr, hup⟩
    · simp [hstatus, Slot.isUp] at hup
  · intro hall
    refine ⟨fun hnil => ?_, fun key slot hs => ?_⟩
    · obtain ⟨key, hkey⟩ := List.exists_mem_of_ne_nil _ hkeys
      have hs := hslot key
      simp [Aggregate.slot?, hnil, hkey] at hs
    · rw [hslot] at hs
      by_cases hkey : key ∈ c.sync.keys
      · rw [if_pos hkey] at hs
        obtain rfl := Option.some.inj hs
        obtain ⟨p, hp, hr, hup⟩ := hall key hkey
        obtain ⟨p', hp', -, hstatus⟩ | ⟨-, hdead⟩ := h.slot ha hkey
        · obtain rfl := Option.some.inj (hp.symm.trans hp')
          rw [hstatus]
          exact hup
        · rw [← Bool.not_eq_true] at hdead
          exact absurd (Assembly.alive_iff.mpr ⟨p, hp, hr⟩) hdead
      · simp [hkey] at hs

theorem Settled.heard_ne_nil (h : c.Settled now s e) (ha : e.Attends s c.sync.keys c.subscriptions)
    (hkeys : c.sync.keys ≠ []) : e.transcript.heard ≠ [] := by
  obtain ⟨key, hkey⟩ := List.exists_mem_of_ne_nil _ hkeys
  intro hnil
  obtain ⟨p, -, hstatus⟩ | ⟨hstatus, -⟩ := h.slot ha hkey
  · simp [hnil, newsOf] at hstatus
  · simp [hnil, newsOf] at hstatus

/-- A run that follows several probes raised the signal last exactly if all of them are running and up. -/
theorem Settled.aggregate (h : c.Settled now s e) (hk : c.Keeps s e older) (hrun : c.sync.running = true)
    (hidle : c.sync.run.activity = .idle) (hseveral : c.sync.aggregated = true) :
    ∃ d, e.transcript.decisions.getLast? = some d ∧ (d.isGo = true ↔
      ∀ key ∈ c.sync.keys, ∃ p, s.probe? key = some p ∧ p.running = true ∧ p.hub.current.up = true) := by
  obtain ⟨hqueue, hexhausted⟩ := h.queue hrun hidle
  obtain ⟨hp, taken, ht⟩ := hk.accounts.run.of_idle hidle
  have hblank : c.sync.blank = some (.new c.sync.keys) := by simp [Sync.blank, hseveral]
  have htaken : taken = e.transcript.heard := by simp [ht.heard, hqueue]
  have ha := hk.attends (by simp [Relay.listening, hidle])
  obtain ⟨hmirror, hshown, -⟩ := Relay.mirror_some c.sync.keys e.transcript.heard
  rw [← htaken, ← hblank, ← ht.aggregate, htaken] at hmirror
  rw [← htaken, ← hblank, ← ht.decisions, htaken] at hshown
  -- With nothing to follow the run would be over.
  have hkeys : c.sync.keys ≠ [] := by
    intro hnil
    rw [Relay.exhausted, hmirror, Option.any_some, ← Bool.not_eq_true] at hexhausted
    have hcoherent := Aggregate.Coherent.ofNews c.sync.keys e.transcript.heard
    refine hexhausted (hcoherent.allTerminated_iff.mpr fun k slot hs => ?_)
    rw [Aggregate.slot?_ofNews, hnil] at hs
    simp at hs
  rw [Aggregate.shown_ofNews (hk.delivered e List.mem_cons_self).known (h.heard_ne_nil ha hkeys)] at hshown
  obtain ⟨d, hd, hgo⟩ := Option.map_eq_some_iff.mp hshown.symm
  exact ⟨d, hd, hgo ▸ h.isUp_iff ha hkeys⟩

end Carrier

namespace Assembly
variable {now i : Nat} {s : Assembly} {logs : Nat → List Episode} {c : Carrier} {e : Episode}
  {older : List Episode}

/-- When a run is between calls and nothing is left to do for it, the last call shows its probe, or all of its
probes together, as they are. -/
theorem last_call_shows (h : Unfolds now s logs) (hc : s.carriers[i]? = some c) (hlog : logs i = e :: older)
    (hrun : c.sync.running = true) (hidle : c.sync.run.activity = .idle) (hset : c.Settled now s e) :
    (c.sync.aggregated = false → ∃ key p, c.sync.keys = [key] ∧ s.probe? key = some p ∧
      p.running = true ∧ c.sync.calls.head?.map (·.2) = some p.hub.current.decision) ∧
    (c.sync.aggregated = true → ∃ d, c.sync.calls.head?.map (·.2) = some d ∧ (d.isGo = true ↔
      ∀ key ∈ c.sync.keys, ∃ p, s.probe? key = some p ∧ p.running = true ∧ p.hub.current.up = true)) := by
  obtain ⟨e', older', hlog', hk⟩ := h.sound.keeps i c hc
  obtain ⟨rfl, rfl⟩ := List.cons.inj (hlog.symm.trans hlog')
  have hlast : ∀ {d}, e.transcript.decisions.getLast? = some d → c.sync.calls.head?.map (·.2) = some d := by
    intro d hd
    rw [← List.head?_map, hk.accounts.calls, List.flatMap_cons]
    simp [hd]
  refine ⟨fun hsingle => ?_, fun hseveral => ?_⟩
  · obtain ⟨key, p, hkeys, hp, hr, hd⟩ := hset.single hk hrun hidle hsingle
    exact ⟨key, p, hkeys, hp, hr, hlast hd⟩
  · obtain ⟨d, hd, hiff⟩ := hset.aggregate hk hrun hidle hseveral
    exact ⟨d, hlast hd, hiff⟩

theorem raised_by_both :
    ∃ s logs c, Unfolds 0 s logs ∧ s.carriers[0]? = some c ∧ c.sync.keys = ["a", "b"] ∧
      c.sync.calls.length = 2 ∧ ∃ d, c.sync.calls.head?.map (·.2) = some d ∧ d.isGo = true := by
  have hnew : Unfolds 0
      (.new ⟨1, .empty, 0, [], false⟩ [("a", .manual "a" .liveness (.good "here")),
        ("b", .manual "b" .liveness (.good "there"))] .empty) _ :=
    .of_probes (List.forall_mem_cons.mpr ⟨rfl, List.forall_mem_singleton.mpr rfl⟩)
  have hadd := hnew.add .liveness ["a", "b"] true ⟨1000⟩
    (.rehearsed fun _ _ => ⟨⟨0⟩, .answers (.ok ())⟩) .stop false (by decide) (by simp)
  have hfirst := (hadd.step (i := 0) rfl rfl (.attach "b" rfl (by decide) rfl)).step (i := 0) rfl rfl
    (.forward [] rfl rfl rfl rfl)
  have hboth := (hfirst.step (i := 0) rfl rfl (.attach "a" rfl (by decide) rfl)).step (i := 0) rfl rfl
    (.forward [_] rfl rfl rfl rfl)
  have hstopped := (hboth.step (i := 0) rfl rfl (.proceed false rfl (by decide) rfl)).step (i := 0) rfl rfl
    (.resolve (d := 0) rfl rfl rfl (Nat.le_refl 0) rfl)
  have hraised := (hstopped.step (i := 0) rfl rfl (.proceed false rfl (by decide) rfl)).step (i := 0) rfl rfl
    (.resolve (d := 0) rfl rfl rfl (Nat.le_refl 0) rfl)
  obtain ⟨-, hseveral⟩ := last_call_shows (i := 0) hraised rfl rfl rfl rfl
    ⟨fun d hd => (nomatch hd), rfl, List.forall_mem_cons.mpr ⟨rfl, List.forall_mem_singleton.mpr rfl⟩⟩
  obtain ⟨d, hd, hiff⟩ := hseveral rfl
  have hall := hiff.mpr (List.forall_mem_cons.mpr ⟨⟨_, rfl, rfl, rfl⟩,
    List.forall_mem_singleton.mpr ⟨_, rfl, rfl, rfl⟩⟩)
  exact ⟨_, _, _, hraised, rfl, rfl, rfl, d, hd, hall⟩

end Assembly
end HealthSignal
