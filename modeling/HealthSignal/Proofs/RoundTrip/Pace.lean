import HealthSignal.Proofs.RoundTrip.Verdict

/-! The pace of a persistence probe. Round trips begin one delay after the one before was over, and none
lasts longer than the timeout before its report and the timeout after it. -/
namespace HealthSignal.RoundTrip

namespace Machine

def beginsBy? (m : Machine) : Option Nat :=
  match m.phase with
  | .awaiting _ deadline => some (deadline + m.settings.timeout.timer + m.settings.delay.timer)
  | .draining _ deadline | .leaving _ deadline => some (deadline + m.settings.delay.timer)
  | .delaying resume => some resume
  | .stopped => none

/-- The latest time at which something comes to light, unless a worker has broken off: that shows once it
has exited. -/
def findsBy? (m : Machine) : Option Nat :=
  match m.phase with
  | .awaiting _ deadline => some deadline
  | .draining _ deadline | .leaving true deadline =>
    some (deadline + m.settings.delay.timer + m.settings.timeout.timer)
  | .delaying resume => some (resume + m.settings.timeout.timer)
  | .leaving false _ | .stopped => none

/-- Nothing is left to happen by `now`: the timer lies ahead, and no worker that has broken off is still
about to exit. -/
def Settled (m : Machine) (now : Nat) : Prop :=
  ∃ d, m.timer? = some d ∧ now < d ∧ m.phase ≠ .leaving false d

theorem Settled.findsBy {m : Machine} {now : Nat} (h : m.Settled now) : ∃ t, m.findsBy? = some t ∧ now ≤ t := by
  obtain ⟨d, hd, hnow, hp'⟩ := h
  cases hp : m.phase with
  | leaving told d' =>
    obtain rfl : d' = d := by simpa [timer?, hp] using hd
    cases told with
    | false => exact absurd hp hp'
    | true => exact ⟨_, by rw [findsBy?, hp], by omega⟩
  | _ => simp [timer?, findsBy?, hp] at hd ⊢ <;> omega

def Reporting (m : Machine) : Prop :=
  ∀ w d, m.phase = .awaiting w d → ∀ seq, w.stage ≠ .pruning seq

end Machine

/-- No answer makes a worker prune before it has reported. -/
theorem Worker.resume_reporting {w : Worker} (hw : ∀ seq, w.stage ≠ .pruning seq) (answers : Machine.Answers) :
    w.resume (answers w.call) ≠ .exit ∧
      ∀ stage, w.resume (answers w.call) = .ask stage → ∀ seq, stage ≠ .pruning seq := by
  have hsteps := w.resume_steps answers
  generalize w.resume (answers w.call) = p at hsteps
  cases hsteps with
  | pruned hs => exact absurd hs (hw _)
  | _ => simp

namespace Machine

theorem Reporting.handle {m : Machine} (h : m.Reporting) (now : Nat) (e : Event) :
    (m.handle now e).1.Reporting := by
  have hturn := m.handle_turn now e
  generalize (m.handle now e).1 = m', m.finding? e = f at hturn
  cases hturn with
  | ask hp hr =>
    intro w d hp'
    obtain ⟨rfl, -⟩ := Phase.awaiting.inj hp'
    exact (Worker.resume_reporting (h _ _ hp) _).2 _ hr
  | begin =>
    intro w d hp'
    obtain ⟨rfl, -⟩ := Phase.awaiting.inj hp'
    simp [Worker.start]
  | idle => exact h
  | _ => exact fun w d hp' => by simp [delay, stop] at hp'

/-- How a machine moves when its timers run out exactly when they are due. While a round trip goes on, no
move puts off what is to come; one that brings something to light gives the time for the next. -/
inductive Move (m : Machine) (now : Nat) (e : Event) (m' : Machine) (f : Option Finding) : Prop
  | goOn : m.busy = true → m'.busy = true → ¬m.Over e → m'.attempt = m.attempt →
    (∀ t ∈ m'.beginsBy?, ∃ t₀ ∈ m.beginsBy?, t ≤ t₀) →
    (f = none → ∀ t ∈ m'.findsBy?, ∃ t₀ ∈ m.findsBy?, t ≤ t₀) →
    (f ≠ none → ∀ t ∈ m'.findsBy?, t ≤ now + 2 * m.settings.timeout.timer + m.settings.delay.timer) →
    Move m now e m' f
  | finish : m.busy = true → m.Over e → m'.phase = .delaying (now + m.settings.delay.timer) →
    m'.attempt = m.attempt → (∃ t₀ ∈ m.beginsBy?, now + m.settings.delay.timer ≤ t₀) →
    (f = none → ∃ t₀ ∈ m.findsBy?, now + m.settings.delay.timer + m.settings.timeout.timer ≤ t₀) →
    Move m now e m' f
  | begin {w : Worker} : m.phase = .delaying now →
    m'.phase = .awaiting w (now + m.settings.timeout.timer) → m'.attempt = m.attempt + 1 → f = none →
    Move m now e m' f
  | stop : m'.phase = .stopped → m'.attempt = m.attempt → Move m now e m' f

theorem handle_move {m : Machine} {now : Nat} {e : Event} (hm : m.Reporting)
    (ht : m.settings.timeout.millis ≠ 0) (he : m.Admits now e) (htimely : ∀ d, m.timer? = some d → now ≤ d) :
    Move m now e (m.handle now e).1 (m.finding? e) := by
  have hturn := m.handle_turn now e
  generalize (m.handle now e).1 = m', m.finding? e = f at hturn
  cases hturn with
  | ask hp => exact .goOn (by simp [busy, hp]) rfl id rfl (by simp [beginsBy?, hp]) (by simp [findsBy?, hp]) (by simp)
  | reportAndDrain hp | reportAndLeave hp | breakOff hp | timeout hp =>
    have := htimely _ (by rw [timer?, hp])
    refine .goOn (by simp [busy, hp]) rfl (by simp [Over, hp]) rfl ?_ ?_ ?_
    all_goals
      simp [beginsBy?, findsBy?, hp, evaluate]
      try omega
  | leave hp he =>
    refine .goOn (by simp [busy, hp]) rfl ?_ rfl (by simp [beginsBy?, hp]) (by simp [findsBy?, hp]) (by simp)
    obtain ⟨_, rfl⟩ | rfl := he <;> exact id
  | quit hp hr => exact absurd hr (Worker.resume_reporting (hm _ _ hp) _).1
  | vanish hp =>
    have := htimely _ (by rw [timer?, hp])
    have hbusy : m.busy = true := by simp [busy, hp]
    exact .finish hbusy hbusy rfl rfl (by simp [beginsBy?, hp]; omega) (by simp)
  | dismiss hp he | gone hp he | crash hp he =>
    have := htimely _ (by rw [timer?, hp])
    refine .finish (by simp [busy, hp]) ?_ rfl rfl (by simp [beginsBy?, hp]; omega) (by simp [findsBy?, hp]; try omega)
    obtain rfl | rfl := he <;> simp [Over, busy, hp]
  | @begin t hp =>
    obtain rfl : t = now := by simpa [Admits, timer?, hp] using he
    exact .begin hp rfl rfl rfl
  | beginInVain _ hz => exact absurd hz ht
  | stop => exact he.elim
  | idle hw _ htimer hexit =>
    cases e with
    | timer => simp [Admits, htimer rfl] at he
    | exit => simp [Admits, hexit rfl] at he
    | _ => simp_all [Admits]

end Machine

structure Paced (history : List Moment) (m : Machine) : Prop where
  attempt_le : ∀ x ∈ history, x.attempt ≤ m.attempt
  begins : ∀ x ∈ history, x.Begins m.attempt → ∀ t, m.beginsBy? = some t →
    t ≤ x.time + 2 * m.settings.timeout.timer + m.settings.delay.timer
  finds : ∀ x f, latest history = some (x, f) → ∀ t, m.findsBy? = some t →
    t ≤ x.time + 2 * m.settings.timeout.timer + m.settings.delay.timer
  working : m.busy = true → ∀ x ∈ history, ¬x.Ends m.attempt
  delayed : ∀ t, m.phase = .delaying t → ∀ x ∈ history, x.Ends m.attempt →
    t = x.time + m.settings.delay.timer
  ended : ∀ t, m.phase = .delaying t → ∀ x ∈ history, x.Begins m.attempt →
    x.time + m.settings.delay.timer ≤ t ∧ ∃ y ∈ history, y.Ends m.attempt

section
variable {history : List Moment} {m m' : Machine} {now : Nat} {e : Event}

theorem latest_cons (history : List Moment) (x : Moment) :
    latest (x :: history) = (x.finding?.map (x, ·)).or (latest history) := by
  simp only [latest]
  cases x.finding? <;> rfl

/-- The bounds on what is to come hold on while they do not grow. -/
theorem Paced.bounds (h : Paced history m) {z : Moment} (hz : z.machine = m) (ha : z.attempt = m.attempt)
    (hm' : m'.attempt = m.attempt) (hs : m'.settings = m.settings)
    (hb : ∀ t ∈ m'.beginsBy?, ∃ t₀ ∈ m.beginsBy?, t ≤ t₀)
    (hf : z.finding? = none → ∀ t ∈ m'.findsBy?, ∃ t₀ ∈ m.findsBy?, t ≤ t₀)
    (hnow : z.finding? ≠ none → ∀ t ∈ m'.findsBy?,
      t ≤ z.time + 2 * m.settings.timeout.timer + m.settings.delay.timer) :
    (∀ x ∈ z :: history, x.Begins m'.attempt → ∀ t, m'.beginsBy? = some t →
      t ≤ x.time + 2 * m'.settings.timeout.timer + m'.settings.delay.timer) ∧
    ∀ x f, latest (z :: history) = some (x, f) → ∀ t, m'.findsBy? = some t →
      t ≤ x.time + 2 * m'.settings.timeout.timer + m'.settings.delay.timer := by
  rw [hm', hs]
  refine ⟨fun x hx hbegins t ht => ?_, fun x f hl t ht => ?_⟩
  · obtain rfl | hx := List.mem_cons.mp hx
    · have := hbegins.1
      rw [hz] at this
      exact absurd this (Nat.lt_irrefl _)
    · obtain ⟨t₀, ht₀, hle⟩ := hb t ht
      exact Nat.le_trans hle (h.begins x hx hbegins t₀ ht₀)
  · rw [latest_cons] at hl
    cases hzf : z.finding? with
    | none =>
      obtain ⟨t₀, ht₀, hle⟩ := hf hzf t ht
      exact Nat.le_trans hle (h.finds x f (by simpa [hzf] using hl) t₀ ht₀)
    | some g =>
      obtain rfl : z = x := by
        rw [hzf] at hl
        exact congrArg Prod.fst (Option.some.inj hl)
      exact hnow (by simp [hzf]) t ht

theorem Paced.attempts (h : Paced history m) (z : Moment) (hle : m.attempt ≤ z.attempt) :
    ∀ x ∈ z :: history, x.attempt ≤ z.attempt := by
  intro x hx
  obtain rfl | hx := List.mem_cons.mp hx
  · exact Nat.le_refl _
  · exact Nat.le_trans (h.attempt_le x hx) hle

theorem Paced.move (h : Paced history m) (htime : ∀ x ∈ history, x.time ≤ now)
    (hmove : m.Move now e (m.handle now e).1 (m.finding? e)) :
    Paced (⟨now, m, e⟩ :: history) (m.handle now e).1 := by
  have hs := (m.handle_turn now e).settings
  have ha : Moment.attempt ⟨now, m, e⟩ = (m.handle now e).1.attempt := rfl
  have hf : Moment.finding? ⟨now, m, e⟩ = m.finding? e := rfl
  have hle := h.attempts ⟨now, m, e⟩ (m.handle_turn now e).attempt_le
  generalize (m.handle now e).1 = m', m.finding? e = f at *
  cases hmove with
  | goOn hw hw' hnot hm' hb hfinds hnow =>
    obtain ⟨hbegins, hfinds⟩ := h.bounds rfl (ha.trans hm') hm' hs hb (hf ▸ hfinds) (hf ▸ hnow)
    have hp : ∀ t, m'.phase ≠ .delaying t := fun t hp => by simp [Machine.busy, hp] at hw'
    refine ⟨ha ▸ hle, hbegins, hfinds, fun _ x hx hends => ?_, fun t ht => absurd ht (hp t),
      fun t ht => absurd ht (hp t)⟩
    obtain rfl | hx := List.mem_cons.mp hx
    · exact hnot hends.1
    · exact h.working hw x hx (hm' ▸ hends)
  | finish hw hover hp' hm' hb hfinds =>
    have hends : Moment.Ends ⟨now, m, e⟩ m'.attempt := ⟨hover, ha⟩
    obtain ⟨hbegins, hfinds⟩ := h.bounds rfl (ha.trans hm') hm' hs
      (by simpa [Machine.beginsBy?, hp'] using hb) (hf ▸ by simpa [Machine.findsBy?, hp', hs] using hfinds) (by
        simp only [Machine.findsBy?, hp', hs, Option.mem_def, Option.some.injEq]
        rintro - t rfl
        omega)
    have hresume : ∀ t, m'.phase = .delaying t → t = now + m'.settings.delay.timer := fun t hp => by
      rw [hs]
      exact Phase.delaying.inj (hp.symm.trans hp')
    refine ⟨ha ▸ hle, hbegins, hfinds, by simp [Machine.busy, hp'], fun t hp x hx hx' => ?_, fun t hp x hx hx' => ?_⟩
    · obtain rfl | hx := List.mem_cons.mp hx
      · exact hresume t hp
      · exact absurd (hm' ▸ hx') (h.working hw x hx)
    · rw [hresume t hp]
      obtain rfl | hx := List.mem_cons.mp hx
      · exact absurd hx'.1 (hm' ▸ Nat.lt_irrefl _)
      · exact ⟨Nat.add_le_add_right (htime x hx) _, _, List.mem_cons_self, hends⟩
  | begin hp hp' hm' hnone =>
    have hold : ∀ x ∈ history, x.attempt ≠ m'.attempt := fun x hx hxa => by
      have := h.attempt_le x hx
      omega
    refine ⟨ha ▸ hle, fun x hx hbegins t ht => ?_, fun x f hl t ht => ?_, fun _ x hx hends => ?_, by simp [hp'],
      by simp [hp']⟩
    · obtain rfl | hx := List.mem_cons.mp hx
      · simp [Machine.beginsBy?, hp', hs] at ht
        rw [hs]
        change t ≤ now + _ + _
        omega
      · exact absurd hbegins.2 (hold x hx)
    · rw [latest_cons, hf, hnone] at hl
      have := h.finds x f (by simpa using hl) (now + m.settings.timeout.timer) (by simp [Machine.findsBy?, hp])
      simp [Machine.findsBy?, hp'] at ht
      rw [hs]
      omega
    · obtain rfl | hx := List.mem_cons.mp hx
      · have hover : m.Over e := hends.1
        cases e <;> simp [Machine.Over, Machine.busy, hp] at hover
      · exact hold x hx hends.2
  | stop hp' hm' =>
    exact ⟨ha ▸ hle, by simp [Machine.beginsBy?, hp'], by simp [Machine.findsBy?, hp'], by simp [Machine.busy, hp'],
      by simp [hp'], by simp [hp']⟩

end

def Spaced (timeout delay : Nat) (history : List Moment) : Prop :=
  ∀ n, ∀ x ∈ history, ∀ y ∈ history, x.Begins n → y.Begins (n + 1) →
    x.time + delay ≤ y.time ∧ y.time ≤ x.time + 2 * timeout + delay ∧
    (∃ l ∈ history, l.Ends n) ∧ ∀ l ∈ history, l.Ends n → y.time = l.time + delay

/-- A round trip that begins does so when the delay after the one before has passed. -/
theorem Spaced.move {timeout delay : Nat} {history : List Moment} {m : Machine} {now : Nat} {e : Event}
    (h : Spaced timeout delay history) (hpaced : Paced history m) (ht : m.settings.timeout.timer = timeout)
    (hd : m.settings.delay.timer = delay) (hmove : m.Move now e (m.handle now e).1 (m.finding? e)) :
    Spaced timeout delay (⟨now, m, e⟩ :: history) := by
  have hle := (m.handle_turn now e).attempt_le
  have ha : Moment.attempt ⟨now, m, e⟩ = (m.handle now e).1.attempt := rfl
  intro n x hx y hy hxn hyn
  obtain rfl | hy := List.mem_cons.mp hy
  · have hlt : m.attempt < n + 1 := hyn.1
    have hn := hyn.2
    obtain rfl | hx := List.mem_cons.mp hx
    · have := hxn.2
      omega
    generalize (m.handle now e).1 = m', m.finding? e = f at *
    cases hmove with
    | begin hp hp' hm' =>
      obtain rfl : m.attempt = n := by omega
      obtain ⟨hdelay, l, hl, hends⟩ := hpaced.ended now hp x hx hxn
      have hbegins := hpaced.begins x hx hxn now (by simp [Machine.beginsBy?, hp])
      subst ht hd
      refine ⟨hdelay, hbegins, ⟨l, List.mem_cons_of_mem _ hl, hends⟩, fun l hl hends => ?_⟩
      obtain rfl | hl := List.mem_cons.mp hl
      · have := hends.2
        omega
      · exact hpaced.delayed now hp l hl hends
    | _ => omega
  · have hy' := hpaced.attempt_le y hy
    rw [hyn.2] at hy'
    obtain rfl | hx := List.mem_cons.mp hx
    · have := hxn.2
      omega
    obtain ⟨hdelay, hbegins, ⟨l, hl, hends⟩, hall⟩ := h n x hx y hy hxn hyn
    refine ⟨hdelay, hbegins, ⟨l, List.mem_cons_of_mem _ hl, hends⟩, fun l hl hends => ?_⟩
    obtain rfl | hl := List.mem_cons.mp hl
    · have := hends.2
      omega
    · exact hall l hl hends

namespace Course
variable {settings : Settings} {start now : Nat} {history : List Moment} {m : Machine} {hub : Hub}

theorem time_le (h : Course settings start now history m hub) : ∀ x ∈ history, x.time ≤ now := by
  induction h with
  | start => simp
  | pass _ hle _ ih => exact fun x hx => Nat.le_trans (ih x hx) hle
  | mail _ _ ih => exact ih
  | event _ _ ih => exact List.forall_mem_cons.mpr ⟨Nat.le_refl _, ih⟩
  | stop _ ih => exact List.forall_mem_cons.mpr ⟨Nat.le_refl _, ih⟩

theorem reporting (h : Course settings start now history m hub) : m.Reporting := by
  induction h with
  | start => simp [Machine.Reporting, Machine.waiting]
  | pass _ _ _ ih => exact ih
  | mail _ _ ih => exact ih
  | event _ _ ih => exact ih.handle _ _
  | stop _ ih => exact ih.handle 0 .stop

theorem event_move {e : Event} (ht : settings.timeout.millis ≠ 0) (h : Course settings start now history m hub)
    (he : m.Admits now e) : m.Move now e (m.handle now e).1 (m.finding? e) :=
  Machine.handle_move h.reporting (by rwa [h.settings_eq]) he h.timely

theorem stop_move (m : Machine) (now : Nat) : m.Move now .stop m.stop none := .stop rfl rfl

theorem paced (ht : settings.timeout.millis ≠ 0) (h : Course settings start now history m hub) :
    Paced history m := by
  induction h with
  | start => exact ⟨by simp, by simp, by simp [latest], by simp, by simp, by simp⟩
  | pass _ _ _ ih => exact ih
  | mail _ _ ih => exact ih
  | event h he ih => exact ih.move h.time_le (h.event_move ht he)
  | stop h ih => exact ih.move (e := .stop) h.time_le (stop_move _ _)

theorem spaced (ht : settings.timeout.millis ≠ 0) (h : Course settings start now history m hub) :
    Spaced settings.timeout.timer settings.delay.timer history := by
  induction h with
  | start => simp [Spaced]
  | pass _ _ _ ih => exact ih
  | mail _ _ ih => exact ih
  | event h he ih =>
    exact ih.move (h.paced ht) (by rw [h.settings_eq]) (by rw [h.settings_eq]) (h.event_move ht he)
  | stop h ih =>
    exact ih.move (e := .stop) (h.paced ht) (by rw [h.settings_eq]) (by rw [h.settings_eq]) (stop_move _ _)

/-- A probe that is up has evaluated a round trip that was stored, no longer ago than until the next one must
have been found out about. -/
theorem fresh (ht : settings.timeout.millis ≠ 0) (h : Course settings start now history m hub)
    (hm : m.Settled now) (hup : hub.current.up = true) :
    ∃ x ∈ history, (∃ r, x.finding? = some (.report r)) ∧ Stored history x.attempt ∧
      now ≤ x.time + 2 * settings.timeout.timer + settings.delay.timer := by
  have hs := h.verified
  obtain ⟨t, hfindsBy, hnow⟩ := hm.findsBy
  have hfinds := (h.paced ht).finds
  rw [h.settings_eq] at hfinds
  generalize hub.current = s at hs hup
  cases hs with
  | @success x r hl hr hstored =>
    obtain ⟨hx, hf⟩ := latest_mem hl
    exact ⟨x, hx, ⟨r, hf⟩, hstored, Nat.le_trans hnow (hfinds x _ hl t hfindsBy)⟩
  | _ => simp [warmingUp, storeFailure, timedOut, crashed, Status.bad] at hup

end Course

/-- While timers run for exactly their durations, a round trip begins exactly one delay after the worker of the
one before has exited or was given up on, and so between one delay and one delay and two timeouts after that
round trip began. A probe that is up has evaluated a round trip that was stored no longer ago than that. -/
theorem pace {settings : Settings} {start now : Nat} {history : List Moment} {m : Machine} {hub : Hub}
    (ht : 0 < settings.timeout.millis) (htimeout : settings.timeout.timer = settings.timeout.millis)
    (hdelay : settings.delay.timer = settings.delay.millis) (h : Course settings start now history m hub) :
    Spaced settings.timeout.millis settings.delay.millis history ∧
    (m.Settled now → hub.current.up = true →
      ∃ x ∈ history, (∃ r, x.finding? = some (.report r)) ∧ Stored history x.attempt ∧
        now ≤ x.time + 2 * settings.timeout.millis + settings.delay.millis) := by
  have ht : settings.timeout.millis ≠ 0 := Nat.ne_of_gt ht
  rw [← htimeout, ← hdelay]
  exact ⟨h.spaced ht, h.fresh ht⟩

/-- A second round trip begins one delay after the worker of the first has been given up on: it reported at once
and did not exit until its time was over. By then the status is of 15 seconds ago. -/
theorem paced_after_stall : ∃ history m hub x y, Course ⟨"p", .seconds 5, .seconds 10⟩ 0 15000 history m hub ∧
    x ∈ history ∧ y ∈ history ∧ x.Begins 1 ∧ y.Begins 2 ∧ x.time + 10000 ≤ y.time ∧
    y.time ≤ x.time + 2 * 5000 + 10000 ∧ hub.current.up = true ∧
    ∃ z ∈ history, (∃ r, z.finding? = some (.report r)) ∧ Stored history z.attempt ∧
      15000 ≤ z.time + 2 * 5000 + 10000 := by
  have hcourse := Course.of_script ⟨"p", .seconds 5, .seconds 10⟩
    ([.timer, .timer] ++ List.replicate 4 (.answer Course.emptyStore) ++ [.timer]) rfl
  obtain ⟨hspaced, hfresh⟩ := pace (by decide) (by decide) (by decide) hcourse
  have hx : Moment.Begins ⟨0, .waiting ⟨"p", .seconds 5, .seconds 10⟩ 0, .timer⟩ 1 := ⟨by decide, rfl⟩
  obtain ⟨hlow, hhigh, -⟩ := hspaced 1 _ (List.mem_of_getLast? rfl) _ List.mem_cons_self hx ⟨by decide, rfl⟩
  exact ⟨_, _, _, _, _, hcourse, List.mem_of_getLast? rfl, List.mem_cons_self, hx, ⟨by decide, rfl⟩, hlow, hhigh, rfl,
    hfresh ⟨_, rfl, by decide, fun hp => by cases hp⟩ rfl⟩

end HealthSignal.RoundTrip
