import HealthSignal.Proofs.Probe.Readiness
import HealthSignal.Proofs.RoundTrip.Run

/-! Mail does not disturb a probe. A run is a list of moves; one without its mail is a run as well, and comes to
the same changes of status and the same store calls, at the same times. -/
namespace HealthSignal
open Timeline

namespace Probe

/-- The turn of its loop that a running probe takes for a message. A cluster probe looks at its status again. -/
def turn (m : Mail) (p : Probe) : Probe :=
  if p.running then
    match p.source with
    | .cluster w => follow { p with hub := m.deliver p.hub } (some w.status)
    | _ => { p with hub := m.deliver p.hub }
  else p

def tamper (f : Journal → Journal) (p : Probe) : Probe :=
  match p.source with
  | .persistence s => { p with source := .persistence { s with journal := f s.journal } }
  | _ => p

def calls (p : Probe) : List (Nat × RoundTrip.Call) :=
  match p.source with
  | .persistence s => s.calls
  | _ => []

def ShowsWatch (p : Probe) : Prop := ∀ w, p.source = .cluster w → p.hub.current = w.status

structure SameCourse (p q : Probe) : Prop where
  source : p.source = q.source
  running : p.running = q.running
  current : p.hub.current = q.hub.current

variable {p q : Probe} {feed : Feed}

theorem turn_eq (hp : p.ShowsWatch) (m : Mail) :
    p.turn m = if p.running then { p with hub := m.deliver p.hub } else p := by
  unfold turn
  split
  · split
    · next w hw =>
      -- the status that it looks at is the current one already
      simp [follow, Hub.transition, hp w hw]
    · rfl
  · rfl

theorem command_deliver (hp : p.ShowsWatch) (hrun : p.running = true) (m : Mail) :
    p.command m.deliver = .ok (p.turn m) := by
  rw [turn_eq hp, command, if_pos hrun, if_pos hrun]

theorem sameCourse_turn (hp : p.ShowsWatch) (m : Mail) : (p.turn m).SameCourse p := by
  rw [turn_eq hp]
  split
  · exact ⟨rfl, rfl, Hub.current_deliver m p.hub⟩
  · exact ⟨rfl, rfl, rfl⟩

namespace SameCourse

theorem trans {r : Probe} (h : p.SameCourse q) (h' : q.SameCourse r) : p.SameCourse r :=
  ⟨h.source.trans h'.source, h.running.trans h'.running, h.current.trans h'.current⟩

theorem showsWatch (h : p.SameCourse q) (hq : q.ShowsWatch) : p.ShowsWatch := fun w hw =>
  h.current.trans (hq w (h.source.symm.trans hw))

theorem due (h : p.SameCourse q) (feed : Feed) : p.due feed = q.due feed := by
  simp only [Probe.due, h.source, h.running]

theorem calls (h : p.SameCourse q) : p.calls = q.calls := by simp only [Probe.calls, h.source]

theorem follow (h : p.SameCourse q) (s : Option Status) : (p.follow s).SameCourse (q.follow s) where
  source := by simp [h.source]
  running := by simp [h.running]
  current := by simp [hub_follow, Hub.current_follow, h.current]

theorem publishNext (h : p.SameCourse q) (waiting : List Status) :
    (p.publishNext waiting).SameCourse (q.publishNext waiting) := by
  cases waiting with
  | nil => exact h
  | cons s rest => exact ⟨rfl, h.running, rfl⟩

theorem act (h : p.SameCourse q) (feed : Feed) (t : Nat) : (p.act feed t).SameCourse (q.act feed t) := by
  -- what comes of an act is decided by the source, which both have in common
  have hsame (source : Source) : SameCourse { p with source := source } { q with source := source } :=
    ⟨rfl, h.running, h.current⟩
  unfold Probe.act
  rw [h.source]
  split
  · exact h
  · exact h.publishNext _
  · exact (hsame _).follow _
  · exact (hsame _).follow _

theorem stop (h : p.SameCourse q) : p.stop.SameCourse q.stop where
  source := by simp only [Probe.stop, h.source]
  running := rfl
  current := h.current

theorem tamper (h : p.SameCourse q) (f : Journal → Journal) : (p.tamper f).SameCourse (q.tamper f) := by
  unfold Probe.tamper
  rw [h.source]
  split
  · exact ⟨rfl, h.running, h.current⟩
  · exact h

end SameCourse

theorem showsWatch_act (p : Probe) (feed : Feed) (t : Nat) : (p.act feed t).ShowsWatch := by
  intro w hw
  cases hs : p.source with
  | fixed => simp [Probe.act, hs] at hw
  | manual => simp [act_manual hs, source_publishNext hs] at hw
  | cluster v =>
    rw [act_cluster hs] at hw ⊢
    obtain rfl : _ = w := Source.cluster.inj ((source_follow _ _).symm.trans hw)
    exact current_follow_some _ _
  | persistence s => simp [source_act hs] at hw

theorem ShowsWatch.stop (hp : p.ShowsWatch) : p.stop.ShowsWatch := by
  intro w hw
  cases hs : p.source with
  | cluster v => exact hp w (by simpa [Probe.stop, hs] using hw)
  | _ => simp [Probe.stop, hs] at hw

theorem ShowsWatch.tamper (hp : p.ShowsWatch) (f : Journal → Journal) : (p.tamper f).ShowsWatch := by
  intro w hw
  cases hs : p.source with
  | cluster v =>
    simp only [Probe.tamper, hs] at hw ⊢
    exact hp w (hs.trans hw)
  | _ => simp [Probe.tamper, hs] at hw

end Probe

inductive Incident
  | publish (e : MemberEvent)
  | close
  | journal (f : Journal → Journal)
  | stop
  | wait

inductive Move
  | act
  | mail (t : Nat) (m : Mail)
  | meet (t : Nat) (i : Incident)

def Move.isMail : Move → Bool
  | .mail .. => true
  | .act | .meet .. => false

def quiet (ms : List Move) : List Move := ms.filter (!·.isMail)

def outside (ms : List Move) : List (Nat × Incident) :=
  ms.filterMap fun
    | .meet t i => some (t, i)
    | .act | .mail .. => none

theorem quiet_cons (m : Move) (ms : List Move) : quiet (m :: ms) = quiet [m] ++ quiet ms :=
  List.filter_append [m] ms

theorem outside_quiet (ms : List Move) : outside (quiet ms) = outside ms := by
  unfold outside quiet
  rw [List.filterMap_filter]
  congr 1
  funext m
  cases m <;> rfl

structure Scene where
  now : Nat
  feed : Feed
  probe : Probe
  /-- Every change of its status with its time, newest first. -/
  changes : List (Nat × Status)

namespace Scene

def due (x : Scene) : Option Nat := x.probe.due x.feed

def become (x : Scene) (t : Nat) (feed : Feed) (p : Probe) : Scene where
  now := t
  feed := feed
  probe := p
  changes := if p.hub.current = x.probe.hub.current then x.changes else (t, p.hub.current) :: x.changes

def Allows (x : Scene) (t : Nat) : Prop := x.now ≤ t ∧ ∀ d ∈ x.due, t ≤ max d x.now

instance (x : Scene) (t : Nat) : Decidable (x.Allows t) := inferInstanceAs (Decidable (_ ∧ _))

def meet (x : Scene) (t : Nat) : Incident → Scene
  | .publish e => x.become t (x.feed.publish e) x.probe
  | .close => x.become t x.feed.close x.probe
  | .journal f => x.become t x.feed (x.probe.tamper f)
  | .stop => x.become t x.feed x.probe.stop
  | .wait => x.become t x.feed x.probe

def step? (x : Scene) : Move → Option Scene
  | .act => x.due.map fun d => x.become (max d x.now) x.feed (x.probe.act x.feed (max d x.now))
  | .mail t m => if x.Allows t then some (x.become t x.feed (x.probe.turn m)) else none
  | .meet t i => if x.Allows t then some (x.meet t i) else none

def run? (x : Scene) (ms : List Move) : Option Scene := ms.foldlM step? x

/-- A run until `horizon` in which the probe is first: whatever happens finds nothing left to do by its time, and so
does the end. -/
def Prompt (horizon : Nat) (x : Scene) : List Move → Prop
  | [] => x.now ≤ horizon ∧ Settled due horizon x
  | m :: ms =>
    (∀ t i, m = .meet t i → Settled due t x) ∧ ∃ x', x.step? m = some x' ∧ x'.Prompt horizon ms

inductive Fresh : Scene → Prop
  | persistence (settings : RoundTrip.Settings) (journal : Journal) (faults : RoundTrip.Faults)
    (feed : Feed) (now : Nat) : Fresh ⟨now, feed, .persistence settings journal faults now, []⟩
  | liveness (node : String) (feed : Feed) (now : Nat) :
    Fresh ⟨now, feed, .clusterLiveness node feed now, []⟩
  | readiness (node : String) (feed : Feed) (debounce : Duration) (now : Nat) :
    Fresh ⟨now, feed, .clusterReadiness node feed debounce now, []⟩

/-- The same changes of status and the same store calls at the same times, and the same to come. -/
structure Like (x y : Scene) : Prop where
  changes : x.changes = y.changes
  calls : x.probe.calls = y.probe.calls
  due : x.due = y.due

theorem Like.symm {x y : Scene} (h : x.Like y) : y.Like x := ⟨h.changes.symm, h.calls.symm, h.due.symm⟩

theorem Like.trans {x y z : Scene} (h : x.Like y) (h' : y.Like z) : x.Like z :=
  ⟨h.changes.trans h'.changes, h.calls.trans h'.calls, h.due.trans h'.due⟩

/-- Of two runs to `x` and `y` that differ in their mail, the one to `x` may be ahead by mail of its own, but not
past what is due. -/
structure Shadows (x y : Scene) : Prop where
  feed : x.feed = y.feed
  probe : x.probe.SameCourse y.probe
  changes : x.changes = y.changes
  behind : y.now ≤ x.now
  inTime : ∀ d ∈ x.due, x.now ≤ max d y.now

variable {x y x' y' : Scene} {ms ms' : List Move}

theorem Fresh.showsWatch (h : x.Fresh) : x.probe.ShowsWatch := by
  intro w hw
  cases h with
  | persistence settings journal faults feed now =>
    rw [Probe.source_persistence] at hw
    cases hw
  | liveness | readiness =>
    obtain rfl := Source.cluster.inj hw
    rfl

theorem step?_act : x.step? .act = some x' ↔ ∃ d ∈ x.due,
    x.become (max d x.now) x.feed (x.probe.act x.feed (max d x.now)) = x' := Option.map_eq_some_iff

theorem step?_mail {t : Nat} {m : Mail} :
    x.step? (.mail t m) = some x' ↔ x.Allows t ∧ x.become t x.feed (x.probe.turn m) = x' := by
  simp [step?]

theorem step?_meet {t : Nat} {i : Incident} :
    x.step? (.meet t i) = some x' ↔ x.Allows t ∧ x.meet t i = x' := by
  simp [step?]

theorem showsWatch_step? (hx : x.probe.ShowsWatch) {m : Move} (h : x.step? m = some x') :
    x'.probe.ShowsWatch := by
  cases m with
  | act =>
    obtain ⟨d, -, rfl⟩ := step?_act.mp h
    exact x.probe.showsWatch_act x.feed _
  | mail t m =>
    obtain ⟨-, rfl⟩ := step?_mail.mp h
    exact (Probe.sameCourse_turn hx m).showsWatch hx
  | meet t i =>
    obtain ⟨-, rfl⟩ := step?_meet.mp h
    cases i with
    | journal f => exact hx.tamper f
    | stop => exact hx.stop
    | publish | close | wait => exact hx

theorem run?_append : x.run? (ms ++ ms') = (x.run? ms).bind (·.run? ms') := List.foldlM_append

theorem run?_singleton {m : Move} : x.run? [m] = some x' ↔ x.step? m = some x' := by simp [run?]

theorem now_le_step? {m : Move} (h : x.step? m = some x') : x.now ≤ x'.now := by
  cases m with
  | act =>
    obtain ⟨d, -, rfl⟩ := step?_act.mp h
    exact Nat.le_max_right ..
  | mail t m =>
    obtain ⟨ht, rfl⟩ := step?_mail.mp h
    exact ht.1
  | meet t i =>
    obtain ⟨ht, rfl⟩ := step?_meet.mp h
    cases i <;> exact ht.1

theorem Prompt.now_le {horizon : Nat} (h : x.Prompt horizon ms) : x.now ≤ horizon := by
  induction ms generalizing x with
  | nil => exact h.1
  | cons m ms ih =>
    obtain ⟨-, x₁, hstep, h⟩ := h
    exact Nat.le_trans (now_le_step? hstep) (ih h)

/-- The first thing to happen is not over yet. -/
theorem Prompt.now_le_outside {horizon : Nat} (h : x.Prompt horizon ms) {t : Nat} {i : Incident}
    (hms : (t, i) ∈ (outside ms).head?) : x.now ≤ t := by
  induction ms generalizing x with
  | nil => cases hms
  | cons m ms ih =>
    obtain ⟨-, x₁, hstep, hrest⟩ := h
    cases m with
    | act | mail => exact Nat.le_trans (now_le_step? hstep) (ih hrest hms)
    | meet t' i' =>
      obtain ⟨rfl, rfl⟩ : t' = t ∧ i' = i := by simpa [outside] using hms
      exact (step?_meet.mp hstep).1.1

theorem prompt_quiet_cons {horizon : Nat} {m : Move} : x.Prompt horizon (quiet (m :: ms)) ↔
    (∀ t i, m = .meet t i → Settled due t x) ∧
      ∃ x', x.run? (quiet [m]) = some x' ∧ x'.Prompt horizon (quiet ms) := by
  cases m <;> simp [quiet, Move.isMail, Prompt, run?]

/-- After an act, a time by which there was nothing left to do is over. -/
theorem lt_now_act (h : x.step? .act = some x') {t : Nat} (ht : Settled due t x) : t < x'.now := by
  obtain ⟨d, hd, rfl⟩ := step?_act.mp h
  exact Nat.lt_of_lt_of_le (ht d hd) (Nat.le_max_left ..)

/-- When the probe acts in one run, it acts in every other one in which the same happens. -/
theorem Prompt.acts {horizon : Nat} (h : x.Prompt horizon (.act :: ms)) (h' : x.Prompt horizon ms')
    (hquiet : ∀ m ∈ ms', m.isMail = false) (heq : outside ms = outside ms') : ∃ ms₁, ms' = .act :: ms₁ := by
  obtain ⟨-, x₁, hact, h⟩ := h
  cases ms' with
  | nil => exact absurd h.now_le (Nat.not_le.mpr (lt_now_act hact h'.2))
  | cons m ms₁ =>
    cases m with
    | act => exact ⟨ms₁, rfl⟩
    | mail => cases hquiet _ List.mem_cons_self
    | meet t i =>
      have hle := h.now_le_outside (t := t) (i := i) (by rw [heq]; rfl)
      exact absurd hle (Nat.not_le.mpr (lt_now_act hact (h'.1 t i rfl)))

/-- One move leads two runs to the same scene. -/
theorem Prompt.tails {horizon : Nat} {m : Move} (h : x.Prompt horizon (m :: ms))
    (h' : x.Prompt horizon (m :: ms')) : ∃ x₁ : Scene, x₁.Prompt horizon ms ∧ x₁.Prompt horizon ms' := by
  obtain ⟨-, x₁, hstep, h⟩ := h
  obtain ⟨-, x₂, hstep', h'⟩ := h'
  obtain rfl := Option.some.inj (hstep.symm.trans hstep')
  exact ⟨x₁, h, h'⟩

/-- Without mail, what happens says when the probe acts. -/
theorem Prompt.unique {horizon : Nat} (h : x.Prompt horizon ms) (h' : x.Prompt horizon ms')
    (hquiet : ∀ m ∈ ms, m.isMail = false) (hquiet' : ∀ m ∈ ms', m.isMail = false)
    (heq : outside ms = outside ms') : ms = ms' := by
  induction ms generalizing x ms' with
  | nil =>
    match ms' with
    | [] => rfl
    | .act :: _ => cases (Prompt.acts h' h hquiet heq.symm).choose_spec
    | .mail .. :: _ => cases hquiet' _ List.mem_cons_self
    | .meet .. :: _ => cases heq
  | cons m ms ih =>
    rw [List.forall_mem_cons] at hquiet
    cases m with
    | act =>
      obtain ⟨ms₁, rfl⟩ := Prompt.acts h h' hquiet' heq
      rw [List.forall_mem_cons] at hquiet'
      obtain ⟨x₁, h, h'⟩ := Prompt.tails h h'
      rw [ih h h' hquiet.2 hquiet'.2 heq]
    | mail => cases hquiet.1
    | meet t i =>
      match ms' with
      | [] => cases heq
      | .act :: _ => cases (Prompt.acts h' h (List.forall_mem_cons.mpr hquiet) heq.symm).choose_spec
      | .mail .. :: _ => cases hquiet' _ List.mem_cons_self
      | .meet t' i' :: ms₁ =>
        rw [List.forall_mem_cons] at hquiet'
        obtain ⟨⟨rfl, rfl⟩, hrest⟩ : (t = t' ∧ i = i') ∧ outside ms = outside ms₁ := by
          simpa [outside] using heq
        obtain ⟨x₁, h, h'⟩ := Prompt.tails h h'
        rw [ih h h' hquiet.2 hquiet'.2 hrest]

namespace Shadows

theorem refl (x : Scene) : x.Shadows x :=
  ⟨rfl, ⟨rfl, rfl, rfl⟩, rfl, Nat.le_refl _, fun _ _ => Nat.le_max_right ..⟩

theorem due (h : x.Shadows y) : x.due = y.due := by
  simp only [Scene.due, h.feed, h.probe.due]

theorem like (h : x.Shadows y) : x.Like y := ⟨h.changes, h.probe.calls, h.due⟩

/-- Both come to be the same at one time. -/
theorem become (h : x.Shadows y) {p q : Probe} (hpq : p.SameCourse q) (t : Nat) (feed : Feed) :
    (x.become t feed p).Shadows (y.become t feed q) where
  feed := rfl
  probe := hpq
  changes := by simp only [Scene.become, hpq.current, h.probe.current, h.changes]
  behind := Nat.le_refl t
  inTime _ _ := Nat.le_max_right ..

theorem allows (h : x.Shadows y) {t : Nat} (ht : x.Allows t) : y.Allows t := by
  refine ⟨Nat.le_trans h.behind ht.1, fun d hd => ?_⟩
  rw [← h.due] at hd
  have := ht.2 d hd
  have := h.inTime d hd
  omega

/-- For mail, only the one run goes on. -/
theorem mail (h : x.Shadows y) (hx : x.probe.ShowsWatch) {t : Nat} (ht : x.Allows t) (m : Mail) :
    (x.become t x.feed (x.probe.turn m)).Shadows y := by
  have hturn := Probe.sameCourse_turn hx m
  exact {
    feed := h.feed
    probe := hturn.trans h.probe
    changes := by simp only [Scene.become, hturn.current, if_pos, h.changes]
    behind := Nat.le_trans h.behind ht.1
    inTime := by
      intro d hd
      have hd : d ∈ x.due := by
        rw [Scene.due, ← hturn.due]
        exact hd
      have := ht.2 d hd
      have := h.inTime d hd
      simp only [Scene.become]
      omega }

theorem meet (h : x.Shadows y) (t : Nat) (i : Incident) : (x.meet t i).Shadows (y.meet t i) := by
  cases i with
  | publish | close | wait => simpa only [Scene.meet, h.feed] using h.become h.probe t _
  | journal f => simpa only [Scene.meet, h.feed] using h.become (h.probe.tamper f) t _
  | stop => simpa only [Scene.meet, h.feed] using h.become h.probe.stop t _

/-- A step of the run that may be ahead, and what the other one does for it: nothing, for mail. -/
theorem step (h : x.Shadows y) (hx : x.probe.ShowsWatch) {m : Move} (hstep : x.step? m = some x') :
    ∃ y', y.run? (quiet [m]) = some y' ∧ x'.Shadows y' := by
  cases m with
  | act =>
    obtain ⟨d, hd, rfl⟩ := step?_act.mp hstep
    -- being ahead is not to be past what is due
    have htime : max d x.now = max d y.now := by
      have := h.behind
      have := h.inTime d hd
      omega
    refine ⟨_, run?_singleton.mpr (step?_act.mpr ⟨d, h.due ▸ hd, rfl⟩), ?_⟩
    rw [htime, h.feed]
    exact h.become (h.probe.act _ _) _ _
  | mail t m =>
    obtain ⟨ht, rfl⟩ := step?_mail.mp hstep
    exact ⟨y, rfl, h.mail hx ht m⟩
  | meet t i =>
    obtain ⟨ht, rfl⟩ := step?_meet.mp hstep
    exact ⟨_, run?_singleton.mpr (step?_meet.mpr ⟨h.allows ht, rfl⟩), h.meet t i⟩

/-- A run, and what is left of it without its mail. -/
theorem run (h : x.Shadows y) (hx : x.probe.ShowsWatch) (hrun : x.run? ms = some x') :
    ∃ y', y.run? (quiet ms) = some y' ∧ x'.Shadows y' := by
  induction ms generalizing x y with
  | nil =>
    obtain rfl := Option.some.inj hrun
    exact ⟨y, rfl, h⟩
  | cons m ms ih =>
    obtain ⟨x₁, hstep, hrun⟩ := Option.bind_eq_some_iff.mp hrun
    obtain ⟨y₁, hy₁, h₁⟩ := h.step hx hstep
    obtain ⟨y', hy', h'⟩ := ih h₁ (showsWatch_step? hx hstep) hrun
    refine ⟨y', ?_, h'⟩
    rw [quiet_cons, run?_append, hy₁]
    exact hy'

theorem prompt (h : x.Shadows y) (hx : x.probe.ShowsWatch) {horizon : Nat} (hp : x.Prompt horizon ms) :
    y.Prompt horizon (quiet ms) := by
  induction ms generalizing x y with
  | nil => exact ⟨Nat.le_trans h.behind hp.1, fun d hd => hp.2 d (h.due ▸ hd)⟩
  | cons m ms ih =>
    obtain ⟨hsettled, x₁, hstep, hp⟩ := hp
    obtain ⟨y₁, hy₁, h₁⟩ := h.step hx hstep
    exact prompt_quiet_cons.mpr ⟨fun t i hm d hd => hsettled t i hm d (h.due ▸ hd), y₁, hy₁,
      ih h₁ (showsWatch_step? hx hstep) hp⟩

end Shadows

/-- What every step of a run keeps holds at its end. -/
theorem run?_induction {P : Scene → Prop} (hstep : ∀ x y m, P x → x.step? m = some y → P y) (hx : P x)
    (h : x.run? ms = some y) : P y := by
  induction ms generalizing x with
  | nil =>
    obtain rfl := Option.some.inj h
    exact hx
  | cons m ms ih =>
    obtain ⟨x₁, hm, h⟩ := Option.bind_eq_some_iff.mp h
    exact ih (hstep x x₁ m hx hm) h

theorem showsWatch_run? (hx : x.probe.ShowsWatch) (h : x.run? ms = some x') : x'.probe.ShowsWatch :=
  run?_induction (P := fun x => x.probe.ShowsWatch) (fun _ _ _ hw hm => showsWatch_step? hw hm) hx h

/-- Runs that differ in their mail alone are alike. -/
theorem like_of_quiet (hx : x.probe.ShowsWatch) (h : x.run? ms = some y) (h' : x.run? ms' = some y')
    (heq : quiet ms = quiet ms') : y.Like y' := by
  obtain ⟨z, hz, hyz⟩ := (Shadows.refl x).run hx h
  obtain ⟨z', hz', hyz'⟩ := (Shadows.refl x).run hx h'
  rw [← heq, hz] at hz'
  obtain rfl := Option.some.inj hz'
  exact hyz.like.trans hyz'.like.symm

/-- Runs in which the same happens differ in their mail alone, if the probe is first in them. -/
theorem quiet_eq_of_outside (hx : x.probe.ShowsWatch) {horizon : Nat} (h : x.Prompt horizon ms)
    (h' : x.Prompt horizon ms') (heq : outside ms = outside ms') : quiet ms = quiet ms' := by
  have hquiet (ms : List Move) : ∀ m ∈ quiet ms, m.isMail = false := fun m hm => by
    simpa using (List.mem_filter.mp hm).2
  refine ((Shadows.refl x).prompt hx h).unique ((Shadows.refl x).prompt hx h') (hquiet ms) (hquiet ms') ?_
  rw [outside_quiet, outside_quiet, heq]

/-- Without its mail a run is a run as well, and comes to the like. So do runs that differ in their mail alone: each
change of status and each store call has its time, whatever mail there was, and so has what is due next. Where the
probe is first, the runs differ in their mail alone as soon as the same happens at the same times. A running probe
takes all mail and has nothing to do sooner or later for it. -/
theorem undisturbed (hx : x.Fresh) (h : x.run? ms = some y) :
    (∃ z, x.run? (quiet ms) = some z ∧ y.Like z) ∧
    (∀ ms' y', x.run? ms' = some y' → quiet ms = quiet ms' → y.Like y') ∧
    (∀ ms' y' horizon, x.run? ms' = some y' → outside ms = outside ms' → x.Prompt horizon ms →
      x.Prompt horizon ms' → y.Like y') ∧
    ∀ m, y.probe.running = true → y.probe.command m.deliver = .ok (y.probe.turn m) ∧
      (y.probe.turn m).due y.feed = y.due := by
  have hshows := hx.showsWatch
  have hlast := showsWatch_run? hshows h
  refine ⟨?_, fun ms' y' h' heq => like_of_quiet hshows h h' heq, fun ms' y' horizon h' heq hp hp' => ?_,
    fun m hrun => ⟨Probe.command_deliver hlast hrun m, (Probe.sameCourse_turn hlast m).due y.feed⟩⟩
  · obtain ⟨z, hz, hyz⟩ := (Shadows.refl x).run hshows h
    exact ⟨z, hz, hyz.like⟩
  · exact like_of_quiet hshows h h' (quiet_eq_of_outside hshows hp hp' heq)

/-- A node that loses its only peer is isolated after the debounce, not a moment later for any mail before. -/
theorem isolated_on_time :
    let feed := (Feed.standalone "a").publish (.up "b")
    let x : Scene := ⟨0, feed, .clusterReadiness "a" feed (.seconds 1) 0, []⟩
    let ms := [.meet 0 (.publish (.unreachable "b")), .act, .mail 600 (.subscribe 7), .mail 999 (.subscribe 7),
      .mail 1000 .query, .act]
    ∃ y, x.run? ms = some y ∧ y.changes.map (fun c => (c.1, c.2.up)) = [(1000, false)] ∧
      ∀ ms' y', x.run? ms' = some y' → quiet ms = quiet ms' → y.Like y' := by
  intro feed x ms
  have hrun : (x.run? ms).map (·.changes.map fun c => (c.1, c.2.up)) = some [(1000, false)] := by
    decide +kernel
  obtain ⟨y, hy, hchanges⟩ := Option.map_eq_some_iff.mp hrun
  exact ⟨y, hy, hchanges, (undisturbed (.readiness ..) hy).2.1⟩

end Scene
end HealthSignal
