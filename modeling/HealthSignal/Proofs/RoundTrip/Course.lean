import HealthSignal.Proofs.RoundTrip.Run

/-! What happens to a persistence probe over a store that may give any answer at any time. The history
of a course keeps every event with the machine that met it, newest first. -/
namespace HealthSignal.RoundTrip
open Timeline

structure Moment where
  time : Nat
  machine : Machine
  event : Event

/-- With this event the worker exits, or is given up on as it has not exited in time. -/
def Machine.Over (m : Machine) : Event → Prop
  | .exit => m.busy = true
  | .timer =>
    match m.phase with
    | .draining .. | .leaving .. => True
    | .awaiting .. | .delaying _ | .stopped => False
  | .answer _ | .panic | .stop => False

namespace Moment

def after (x : Moment) : Machine := (x.machine.handle x.time x.event).1

def finding? (x : Moment) : Option Finding := x.machine.finding? x.event

def attempt (x : Moment) : Nat := x.after.attempt

def call? (x : Moment) : Option Call := x.after.worker?.map Worker.call

def Begins (x : Moment) (n : Nat) : Prop := x.machine.attempt < n ∧ x.attempt = n

def Ends (x : Moment) (n : Nat) : Prop := x.machine.Over x.event ∧ x.attempt = n

def Acknowledges (x : Moment) (k : CallKind) : Prop :=
  ∃ w d answers, x.machine.phase = .awaiting w d ∧ x.event = .answer answers ∧
    w.call.kind = k ∧ (answers w.call).isOk = true

end Moment

def callLog (history : List Moment) : List (Nat × Call) := history.filterMap fun x => x.call?.map (x.time, ·)

theorem callLog_cons (x : Moment) (history : List Moment) :
    callLog (x :: history) = (x.after.worker?.map fun w => (x.time, w.call)).toList ++ callLog history := by
  cases hw : x.after.worker? <;> simp [callLog, Moment.call?, hw]

namespace Machine

def waiting (settings : Settings) (start : Nat) : Machine :=
  { new settings with phase := .delaying start }

theorem dispatch_waiting (settings : Settings) (start now : Nat) :
    (waiting settings start).dispatch now = (new settings).dispatch now := by
  by_cases hz : settings.timeout.millis = 0
  · rw [dispatch_zero hz, dispatch_zero hz]
    rfl
  · rw [dispatch_pos hz, dispatch_pos hz]
    rfl

/-- What the surroundings may do at time `now`: they answer or fail a call in progress, a worker may exit
at any time, and the timer runs out exactly when it is due. -/
def Admits (m : Machine) (now : Nat) : Event → Prop
  | .answer _ | .panic => m.worker?.isSome = true
  | .exit => m.busy = true
  | .timer => m.timer? = some now
  | .stop => False

end Machine

inductive Course (settings : Settings) (start : Nat) : Nat → List Moment → Machine → Hub → Prop
  | start : Course settings start start [] (.waiting settings start) (.new warmingUp)
  | pass {now later : Nat} {history : List Moment} {m : Machine} {hub : Hub} :
    Course settings start now history m hub → now ≤ later → (∀ d, m.timer? = some d → later ≤ d) →
    Course settings start later history m hub
  | mail {now : Nat} {history : List Moment} {m : Machine} {hub : Hub} (mail : Mail) :
    Course settings start now history m hub →
    Course settings start now history m (mail.deliver hub)
  | event {now : Nat} {history : List Moment} {m : Machine} {hub : Hub} {e : Event} :
    Course settings start now history m hub → m.Admits now e →
    Course settings start now (⟨now, m, e⟩ :: history) (m.handle now e).1
      (hub.follow (m.handle now e).2)
  | stop {now : Nat} {history : List Moment} {m : Machine} {hub : Hub} :
    Course settings start now history m hub →
    Course settings start now (⟨now, m, .stop⟩ :: history) m.stop { hub with subscribers := [] }

namespace Course
variable {settings : Settings} {start now : Nat} {history : List Moment} {m : Machine} {hub : Hub}

theorem settings_eq (h : Course settings start now history m hub) : m.settings = settings := by
  induction h with
  | start => rfl
  | pass _ _ _ ih => exact ih
  | mail _ _ ih => exact ih
  | event _ _ ih => exact (Machine.handle_turn _ _ _).settings.trans ih
  | stop _ ih => exact ih

theorem timer_handle {m : Machine} {now : Nat} (h : ∀ d, m.timer? = some d → now ≤ d) (e : Event) :
    ∀ d, (m.handle now e).1.timer? = some d → now ≤ d := by
  have hturn := m.handle_turn now e
  generalize (m.handle now e).1 = m', m.finding? e = f at *
  cases hturn with
  | ask hp _ | leave hp _ =>
    intro d hd
    exact h d (by simpa [Machine.timer?, hp] using hd)
  | idle => exact h
  | stop => simp [Machine.timer?]
  | _ =>
    intro d hd
    simp [Machine.timer?, Machine.begun] at hd
    omega

/-- Time does not pass a timer. -/
theorem timely (h : Course settings start now history m hub) : ∀ d, m.timer? = some d → now ≤ d := by
  induction h with
  | start => exact fun d hd => Nat.le_of_eq (Option.some.inj hd)
  | pass _ _ hd _ => exact hd
  | mail _ _ ih => exact ih
  | event _ _ ih => exact timer_handle ih _
  | stop _ ih => exact fun d hd => by simp [Machine.stop, Machine.timer?] at hd

/-- Every moment of a course was met by a course of its own. -/
theorem before {newer older : List Moment} {x : Moment}
    (h : Course settings start now (newer ++ x :: older) m hub) :
    ∃ hub', Course settings start x.time older x.machine hub' := by
  generalize hhistory : newer ++ x :: older = history at h
  induction h generalizing newer with
  | start => simp at hhistory
  | pass _ _ _ ih => exact ih hhistory
  | mail _ _ ih => exact ih hhistory
  | event h _ ih | stop h ih =>
    cases newer with
    | nil =>
      obtain ⟨rfl, rfl⟩ := List.cons.inj hhistory
      exact ⟨_, h⟩
    | cons y newer => exact ih (List.cons.inj hhistory).2

/-- A status that the newest moment led to is still the current one. -/
theorem current_newest {older : List Moment} {x : Moment} {status : Status}
    (h : Course settings start now (x :: older) m hub) (hs : (x.machine.handle x.time x.event).2 = some status) :
    hub.current = status := by
  generalize hhistory : x :: older = history at h
  induction h with
  | start => simp at hhistory
  | pass _ _ _ ih => exact ih hhistory
  | mail _ _ ih =>
    rw [Hub.current_deliver]
    exact ih hhistory
  | event =>
    obtain ⟨rfl, -⟩ := List.cons.inj hhistory
    rw [hs, Hub.current_follow]
    rfl
  | stop =>
    obtain ⟨rfl, -⟩ := List.cons.inj hhistory
    simp [Machine.handle] at hs

def emptyStore : Machine.Answers
  | .load => .ok none
  | .replay => .ok []
  | .append .. | .save .. | .prune _ => .ok ()

/-- The first round trip over such a store succeeds at once, and its worker exits. -/
theorem succeeds : ∃ history m hub, Course ⟨"p", .seconds 5, .seconds 10⟩ 0 0 history m hub ∧
    hub.current = succeeded ∧ m.timer? = some 10000 := by
  have hstart : Course ⟨"p", .seconds 5, .seconds 10⟩ 0 0 _ _ _ := .start
  have hbegun := hstart.event (e := .timer) rfl
  have hdone := ((((hbegun.event (e := .answer emptyStore) rfl).event (e := .answer emptyStore) rfl).event
    (e := .answer emptyStore) rfl).event (e := .answer emptyStore) rfl).event (e := .exit) rfl
  exact ⟨_, _, _, hdone, rfl, rfl⟩

/-- What a script of events, newest first, comes to: timers run out when they are due, all else happens at once. -/
def played (settings : Settings) : List Event → Nat × List Moment × Machine × Hub
  | [] => (0, [], .waiting settings 0, .new warmingUp)
  | e :: earlier =>
    let (now, history, m, hub) := played settings earlier
    let now := match e with
      | .timer => m.timer?.getD now
      | _ => now
    (now, ⟨now, m, e⟩ :: history, (m.handle now e).1, hub.follow (m.handle now e).2)

def playable (settings : Settings) : List Event → Bool
  | [] => true
  | e :: earlier =>
    let (_, _, m, _) := played settings earlier
    playable settings earlier && match e with
      | .answer _ | .panic => m.worker?.isSome
      | .exit => m.busy
      | .timer => m.timer?.isSome
      | .stop => false

theorem of_script (settings : Settings) (es : List Event) (h : playable settings es = true) :
    let (now, history, m, hub) := played settings es
    Course settings 0 now history m hub := by
  induction es with
  | nil => exact .start
  | cons e earlier ih =>
    obtain ⟨hearlier, hmay⟩ := Bool.and_eq_true_iff.mp h
    have hcourse := ih hearlier
    simp only [played]
    generalize played settings earlier = before at *
    obtain ⟨now, history, m, hub⟩ := before
    cases e with
    | answer | panic | exit => exact hcourse.event hmay
    | timer =>
      obtain ⟨d, hd⟩ := Option.isSome_iff_exists.mp hmay
      simp only [hd, Option.getD_some]
      exact (hcourse.pass (hcourse.timely d hd) fun d' hd' =>
        Nat.le_of_eq (Option.some.inj (hd.symm.trans hd'))).event hd
    | stop => exact absurd hmay Bool.false_ne_true

def storeOf (found : Option Nat) (replayed : Except JournalError (List Nat)) : Machine.Answers
  | .load => .ok found
  | .replay => replayed
  | .append .. | .save .. | .prune _ => .ok ()

end Course

namespace Session
variable {s : Session}

theorem calls_issue_eq (s : Session) (now : Nat) :
    (s.issue now).calls = (s.machine.worker?.map fun w => (now, w.call)).toList ++ s.calls := by
  unfold issue
  split
  · next w hw => simp [hw]
  · next hw => simp [hw]

theorem calls_act_eq {e : Event} (he : (s.event now).1 = some e) : (s.act now).1.calls =
    ((s.machine.handle now e).1.worker?.map fun w => (now, w.call)).toList ++ s.calls := by
  obtain ⟨e', he', hact⟩ | ⟨w, hnone, -⟩ := s.act_cases now
  · obtain rfl := Option.some.inj (he.symm.trans he')
    rw [hact, calls_issue_eq]
  · cases he.symm.trans hnone

theorem due_le_timer {t : Nat} (ht : s.machine.timer? = some t) : ∃ d, s.due = some d ∧ d ≤ t := by
  unfold due
  by_cases hc : s.workerFirst = true
  · have hfirst := hc
    unfold workerFirst at hfirst
    rw [if_pos hc]
    have hle : ∀ wake deadline, s.wake? = some wake → s.machine.timer? = some deadline → wake ≤ deadline →
        ∃ d, s.wake? = some d ∧ d ≤ t := fun wake deadline hw hd hle =>
      ⟨wake, hw, Option.some.inj (ht.symm.trans hd) ▸ hle⟩
    split at hfirst
    · next hw hp => exact hle _ _ hw (by rw [Machine.timer?, hp]) (Nat.le_of_lt (of_decide_eq_true hfirst))
    · next hw hp => exact hle _ _ hw (by rw [Machine.timer?, hp]) (of_decide_eq_true hfirst)
    · next hw hp => exact hle _ _ hw (by rw [Machine.timer?, hp]) (of_decide_eq_true hfirst)
    · cases hfirst
  · rw [if_neg hc]
    exact ⟨t, ht, Nat.le_refl t⟩

/-- What the next act of a session brings to its machine is something that its surroundings may do. -/
theorem admits_event {d now : Nat} {e : Event} (hd : s.due = some d)
    (htimely : ∀ d, s.machine.timer? = some d → now ≤ d) (he : (s.event (max d now)).1 = some e) :
    s.machine.Admits (max d now) e := by
  unfold event at he
  by_cases hc : s.workerFirst = true
  · rw [if_pos hc] at he
    split at he
    · obtain rfl := Option.some.inj he
      exact (workerFirst_busy hc).1
    · next w hw =>
      have hw : s.machine.worker?.isSome = true := by rw [hw]; rfl
      split at he
      · exact Option.some.inj he ▸ hw
      · exact Option.some.inj he ▸ hw
      · exact Option.some.inj he ▸ hw
      · cases he
      · cases he
  · have ht : s.machine.timer? = some d := by simpa [due, hc] using hd
    rw [if_neg hc] at he
    obtain rfl := Option.some.inj he
    rw [Nat.max_eq_left (htimely d ht)]
    exact ht

end Session
end HealthSignal.RoundTrip

namespace HealthSignal.Probe
open RoundTrip Timeline

variable {settings : Settings} {journal : Journal} {faults : Faults} {feed : Feed} {start now : Nat}
  {p : Probe} {Change : Journal → Journal → Prop}

/-- Every run of a persistence probe over a journal is a course, and the calls it notes are those of the course. -/
theorem leads_course
    (h : Leads Change feed start (persistence settings journal faults start) now p) :
    ∃ s history, p.source = .persistence s ∧ Course settings start now history s.machine p.hub ∧
      s.calls = callLog history ∧
      (p.running = true ↔ s.machine.timer? ≠ none) := by
  induction h with
  | refl =>
    refine ⟨_, [⟨start, .waiting settings start, .timer⟩], source_persistence .., ?_, ?_, fun _ => ?_,
      fun _ => running_follow _ _⟩
    · rw [Session.machine_start, hub_persistence, ← Machine.dispatch_waiting]
      exact Course.start.event rfl
    · have hafter : Moment.after ⟨start, .waiting settings start, .timer⟩ = ((Machine.new settings).dispatch start).1 :=
        congrArg Prod.fst (Machine.dispatch_waiting settings start start)
      rw [callLog_cons, hafter]
      exact Session.calls_issue_eq _ _
    · rw [Session.machine_start, ← Machine.dispatch_waiting]
      exact ((Machine.waiting settings start).handle_turn start .timer).timer (by simp)
        (by simp [Machine.waiting, Machine.timer?])
  | @act now d q hq hd ih =>
    obtain ⟨s, history, hs, hc, hcalls, hr⟩ := ih
    rw [due_persistence hs] at hd
    split at hd
    · next hrun =>
      have hpass := hc.pass (Nat.le_max_right d now) fun t ht => by
        obtain ⟨d', hd', hle⟩ := Session.due_le_timer ht
        obtain rfl : d = d' := Option.some.inj (hd.symm.trans hd')
        exact Nat.max_le.mpr ⟨hle, hc.timely t ht⟩
      obtain ⟨e, he, -⟩ | ⟨w, -, -, -, -, hact⟩ := s.act_cases (max d now)
      · have hadmits := Session.admits_event hd hc.timely he
        have hturn := s.machine.handle_turn (max d now) e
        refine ⟨_, ⟨max d now, s.machine, e⟩ :: history, source_act hs feed _, ?_, ?_, ?_⟩
        · rw [act_persistence hs, hub_follow, Session.machine_act, Session.status_act, he]
          exact hpass.event hadmits
        · rw [Session.calls_act_eq he, callLog_cons, hcalls]
          rfl
        · rw [running_act hs, Session.machine_act, he]
          refine ⟨fun _ => hturn.timer ?_ (hr.mp hrun), fun _ => hrun⟩
          rintro rfl
          exact hadmits
      · -- The machine is not told.
        refine ⟨_, history, source_act hs feed _, ?_, ?_, ?_⟩
        · rw [act_persistence hs, hact]
          exact hpass
        · rw [hact]
          exact hcalls
        · rw [running_act hs, hact]
          exact hr
    · simp at hd
  | @pass now later q hq hle hd ih =>
    obtain ⟨s, history, hs, hc, hcalls, hr⟩ := ih
    refine ⟨s, history, hs, hc.pass hle fun t ht => ?_, hcalls, hr⟩
    have hrun : q.running = true := hr.mpr (by simp [ht])
    obtain ⟨d, hdue, hdt⟩ := Session.due_le_timer ht
    have := hd d (by rw [due_persistence hs, hrun]; exact hdue)
    have := hc.timely t ht
    omega
  | move hq hm ih =>
    obtain ⟨s, history, hs, hc, hcalls, hr⟩ := ih
    cases hm with
    | mail m hm =>
      obtain ⟨-, rfl⟩ := command_eq_ok hm
      exact ⟨s, history, hs, hc.mail m, hcalls, hr⟩
    | journal hs' _ =>
      obtain rfl : s = _ := by simpa using hs.symm.trans hs'
      exact ⟨_, history, rfl, hc, hcalls, hr⟩
    | stop =>
      refine ⟨s.stop, _, by simp [Probe.stop, hs], hc.stop, ?_, ?_⟩
      · rw [callLog_cons]
        exact hcalls
      · simp [Probe.stop, Session.stop, Machine.stop, Machine.timer?]

end HealthSignal.Probe
