import HealthSignal.Proofs.RoundTrip.Run

/-! What holds of a probe whatever it does and whatever it is told, and what it says all its life. -/
namespace HealthSignal

def KeptByMail (I : Probe → Prop) : Prop := ∀ {p : Probe} (m : Mail), I p → I { p with hub := m.deliver p.hub }

structure Steady (I : Probe → Prop) : Prop where
  act : ∀ {p : Probe} (feed : Feed) (now : Nat), I p → I (p.act feed now)
  mail : KeptByMail I
  stop : ∀ {p : Probe}, I p → I p.stop

namespace Hub
variable {P : Status → Prop} {h : Hub}

def Says (P : Status → Prop) (h : Hub) : Prop := P h.current ∧ ∀ x ∈ h.log, P x.2

theorem says_new {s : Status} (hs : P s) : (new s).Says P := ⟨hs, by simp [new]⟩

theorem Says.push (hs : h.Says P) (id : SubscriberId) : (h.push id).Says P := by
  unfold Hub.push
  split
  · exact hs
  · refine ⟨hs.1, fun x hx => ?_⟩
    obtain rfl | hx := List.mem_cons.mp hx
    · exact hs.1
    · exact hs.2 x hx

theorem Says.mail (hs : h.Says P) (m : Mail) : (m.deliver h).Says P := by
  cases m with
  | query | unsubscribe | notices => exact hs
  | loss id =>
    simp only [Mail.deliver, lose]
    split <;> exact hs
  | subscribe id =>
    simp only [Mail.deliver, subscribe]
    split <;> exact hs.push id

theorem Says.publish (hs : h.Says P) {s : Status} (hP : P s) : (h.publish s).Says P := by
  refine ⟨hP, fun x hx => ?_⟩
  obtain hx | hx := List.mem_append.mp hx
  · obtain ⟨id, -, rfl⟩ := List.mem_map.mp (List.mem_reverse.mp hx)
    exact hP
  · exact hs.2 x hx

theorem Says.follow (hs : h.Says P) {o : Option Status} (hP : ∀ s ∈ o, P s) : (h.follow o).Says P := by
  cases o with
  | none => exact hs
  | some s =>
    show (h.transition s).Says P
    unfold transition
    split
    · exact hs
    · exact hs.publish (hP s rfl)

end Hub

def Status.initial (s : Status) : Option Char := s.message.toList.head?

theorem ClusterView.initial_liveness (v : ClusterView) : v.liveness.initial = some 'n' := by
  unfold liveness
  split
  · simp [Status.initial, Status.good]
  · split <;> simp [Status.initial, Status.bad]

theorem ClusterWatch.initial_status (w : ClusterWatch) : w.status.initial = some 'n' := by
  unfold status
  split
  · exact w.view.initial_liveness
  · unfold ClusterView.readiness
    split
    · exact w.view.initial_liveness
    · split <;> simp [Status.initial, Status.bad, Status.good]

namespace RoundTrip

theorem Verdict.initial_status (v : Verdict) : v.status.initial = some 'p' := by
  unfold status
  split
  · simp [Status.initial, Status.bad]
  · split
    · decide
    · decide

theorem initial_timedOut (timeout : Duration) : (timedOut timeout).initial = some 'p' := by
  simp [Status.initial, timedOut, Status.bad]

theorem initial_crashed : crashed.initial = some 'p' := by decide

theorem Machine.initial_dispatch {m : Machine} {now : Nat} {st : Status} (h : (m.dispatch now).2 = some st) :
    st.initial = some 'p' := by
  by_cases hzero : m.settings.timeout.millis = 0
  · rw [dispatch_zero hzero] at h
    exact Option.some.inj h ▸ initial_timedOut _
  · simp [dispatch_pos hzero] at h

theorem Session.initial_act {s : Session} {now : Nat} {st : Status} (h : (s.act now).2 = some st) :
    st.initial = some 'p' := by
  rw [status_act] at h
  cases he : (s.event now).1 with
  | none => simp [he, Machine.meet] at h
  | some e =>
    rw [he, Machine.meet, Machine.handle_status] at h
    obtain ⟨f, -, rfl⟩ := Option.map_eq_some_iff.mp h
    cases f with
    | report r => exact Verdict.initial_status _
    | timeout => exact initial_timedOut _
    | crash => exact initial_crashed

end RoundTrip

namespace Probe
variable {P : Status → Prop} {p : Probe}

def Says (P : Status → Prop) (p : Probe) : Prop := p.hub.Says P ∧ ∀ s ∈ p.source.waiting, P s

theorem Says.publishNext (h : p.Says P) {waiting : List Status} (hs : p.source = .manual waiting) :
    (p.publishNext waiting).Says P := by
  obtain ⟨hhub, hwaiting⟩ := h
  rw [hs] at hwaiting
  cases waiting with
  | nil => exact ⟨hhub, by rwa [Probe.publishNext, hs]⟩
  | cons s rest =>
    rw [Source.waiting, List.forall_mem_cons] at hwaiting
    exact ⟨hhub.publish hwaiting.1, hwaiting.2⟩

/-- What a probe says stays such, if the statuses of clusters and round trips are. -/
theorem steady_says (hcluster : ∀ s : Status, s.initial = some 'n' → P s)
    (hround : ∀ s : Status, s.initial = some 'p' → P s) : Steady (Says P) where
  act := fun {p} feed now h => by
    cases hs : p.source with
    | fixed => rwa [act, hs]
    | manual waiting =>
      rw [act_manual hs]
      exact h.publishNext hs
    | cluster watch =>
      rw [act, hs, Says, hub_follow, source_follow]
      exact ⟨h.1.follow fun s hs => hcluster s (Option.some.inj hs ▸ ClusterWatch.initial_status _), by
        simp [Source.waiting]⟩
    | persistence session =>
      rw [act, hs, Says, hub_follow, source_follow]
      exact ⟨h.1.follow fun s hs => hround s (RoundTrip.Session.initial_act hs), by simp [Source.waiting]⟩
  mail := fun m h => ⟨h.1.mail m, h.2⟩
  stop := fun {p} h => ⟨h.1, by cases hs : p.source <;> simp [stop, hs, Source.waiting]⟩

def Frozen (st : Status) (p : Probe) : Prop := p.source = .fixed ∧ p.hub.Says (· = st)

theorem steady_frozen (st : Status) : Steady (Frozen st) where
  act := fun {p} feed now h => by
    rw [act, h.1]
    exact h
  mail := fun m h => ⟨h.1, h.2.mail m⟩
  stop := fun {p} h => ⟨by rw [stop, h.1], h.2⟩

end Probe
end HealthSignal
