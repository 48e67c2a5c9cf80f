import HealthSignal.Proofs.RoundTrip.Exchange

/-! The calls of a persistence probe. Those of one round trip come in their order and with one number, each after the
answers that call for it, and no worker makes a call once its round trip or its probe is over. -/
namespace HealthSignal.RoundTrip

def fullTrip (seq : Nat) (payload : String) : List Call :=
  [.load, .replay, .append seq payload, .save seq payload, .prune seq]

/-- The number of the snapshot that a load gives, and zero if it gives none, or one below the expected one. -/
def loadedSeq (expect : Option Nat) : Except JournalError (Option Nat) → Nat
  | .ok (some k) => if expect.all (· ≤ k) then k else 0
  | .ok none | .error _ => 0

/-- What round trip `n` was told by the time that it makes a call, given what it expects to find. -/
def Call.Warranted (history : List Moment) (n : Nat) (expect : Expectation) : Call → Prop
  | .load => True
  | .replay => ∃ a, Heard history n .load a
  | .append seq _ => ∃ (a : Except JournalError (Option Nat)) (seqs : List Nat),
    Heard history n .load a ∧ Heard history n .replay (.ok seqs) ∧ (∀ s, expect.journal = some s → s ∈ seqs) ∧
      seq = max (seqs.getLast?.getD 0) (loadedSeq expect.snapshot a) + 1
  | .save seq _ => (∃ payload, Heard history n (.append seq payload) (.ok ())) ∧
    ∃ found : Option Nat, Heard history n .load (.ok found) ∧
      ∀ s, expect.snapshot = some s → ∃ k, found = some k ∧ s ≤ k
  | .prune seq => 1 < n ∧ ∃ payload, Heard history n (.save seq payload) (.ok ())

def callsOf (n : Nat) : List Moment → List Call
  | [] => []
  | x :: older => callsOf n older ++ if x.attempt = n then x.call?.toList else []

namespace Stage

def calls (marker : String) : Stage → List Call
  | .loading => [.load]
  | .replaying _ => [.load, .replay]
  | .appending _ seq => [.load, .replay, .append seq marker]
  | .saving seq => [.load, .replay, .append seq marker, .save seq marker]
  | .pruning seq => fullTrip seq marker

theorem calls_prefix (marker : String) (stage : Stage) : ∃ seq, stage.calls marker <+: fullTrip seq marker := by
  cases stage with
  | loading => exact ⟨0, _, rfl⟩
  | replaying recovered => exact ⟨0, _, rfl⟩
  | appending recovered seq => exact ⟨seq, _, rfl⟩
  | saving seq => exact ⟨seq, _, rfl⟩
  | pruning seq => exact ⟨seq, List.prefix_refl _⟩

end Stage

namespace Worker
variable {w : Worker} {answers : Machine.Answers}

def Progress.stage? : Progress → Option Stage
  | .ask stage => some stage
  | .report _ next => next
  | .exit => none

/-- A worker goes on with the next call. -/
theorem calls_resume {stage : Stage} (hr : (w.resume (answers w.call)).stage? = some stage) :
    stage.calls w.marker = w.stage.calls w.marker ++ [callOf w.marker stage] := by
  have hsteps := w.resume_steps answers
  generalize w.resume (answers w.call) = p at hr hsteps
  cases hsteps with
  | loaded hs | replayed hs | appended hs =>
    obtain rfl := Option.some.inj hr
    rw [hs]
    rfl
  | saved hs =>
    simp only [Progress.stage?] at hr
    split at hr
    · obtain rfl := Option.some.inj hr
      rw [hs]
      rfl
    · cases hr
  | _ => cases hr

theorem loadedSeq_eq (expect : Option Nat) (a : Except JournalError (Option Nat)) :
    (recoverSnapshot expect a).toOption.getD 0 = loadedSeq expect a := by
  cases a with
  | error e => rfl
  | ok found =>
    cases found with
    | none => cases expect <;> rfl
    | some k =>
      cases expect with
      | none => rfl
      | some s =>
        by_cases hlt : k < s
        · simp [recoverSnapshot, loadedSeq, hlt, Nat.not_le.mpr hlt, Except.toOption]
        · simp [recoverSnapshot, loadedSeq, hlt, Nat.not_lt.mp hlt, Except.toOption]

theorem recoverSnapshot_ok {expect : Option Nat} {a : Except JournalError (Option Nat)} {n : Nat}
    (h : recoverSnapshot expect a = .ok n) :
    ∃ found, a = .ok found ∧ ∀ s, expect = some s → ∃ k, found = some k ∧ s ≤ k := by
  cases a with
  | error e => cases h
  | ok found =>
    refine ⟨found, rfl, ?_⟩
    rintro s rfl
    cases found with
    | none => simp [recoverSnapshot] at h
    | some k =>
      by_cases hlt : k < s
      · simp [recoverSnapshot, hlt] at h
      · exact ⟨k, rfl, Nat.not_lt.mp hlt⟩

end Worker

theorem Stage.Backed.warranted {history : List Moment} {n : Nat} {expect : Expectation} {stage : Stage}
    (h : stage.Backed history n expect) (marker : String) :
    (Worker.callOf marker stage).Warranted history n expect := by
  cases stage with
  | loading => trivial
  | replaying recovered =>
    obtain ⟨a, ha, -⟩ := h
    exact ⟨a, ha⟩
  | appending recovered seq =>
    obtain ⟨⟨a, ha, rfl⟩, seqs, hseqs, hall, rfl⟩ := h
    exact ⟨a, seqs, ha, hseqs, hall,
      congrArg (max (seqs.getLast?.getD 0) · + 1) (Worker.loadedSeq_eq expect.snapshot a)⟩
  | saving seq =>
    obtain ⟨⟨a, k, ha, heq⟩, happend⟩ := h
    obtain ⟨found, rfl, hfound⟩ := Worker.recoverSnapshot_ok heq
    exact ⟨happend, found, ha, hfound⟩
  | pruning seq => exact h

/-- The calls in a history: those of the running worker are the calls up to its stage, those of round trips before
are calls up to some stage, and there are no others yet. -/
structure Ordered (history : List Moment) (m : Machine) : Prop where
  running : ∀ w, m.worker? = some w → callsOf m.attempt history = w.stage.calls w.marker
  started : ∀ n, callsOf n history = [] ∨ ∃ stage marker, callsOf n history = Stage.calls marker stage

section Ordered
variable {history : List Moment} {m m' : Machine} {x : Moment} {n now : Nat}

theorem callsOf_none (hx : x.after.worker? = none) : callsOf n (x :: history) = callsOf n history := by
  simp [callsOf, Moment.call?, hx]

theorem callsOf_other (hx : x.attempt ≠ n) : callsOf n (x :: history) = callsOf n history := by
  simp [callsOf, hx]

theorem callsOf_new {w : Worker} (hx : x.after.worker? = some w) (hn : x.attempt = n) :
    callsOf n (x :: history) = callsOf n history ++ [w.call] := by
  simp [callsOf, Moment.call?, hx, hn]

theorem callsOf_later (h : ∀ y ∈ history, y.attempt < n) : callsOf n history = [] := by
  induction history with
  | nil => rfl
  | cons y history ih =>
    obtain ⟨hy, hall⟩ := List.forall_mem_cons.mp h
    rw [callsOf_other (Nat.ne_of_lt hy), ih hall]

theorem Ordered.over (h : Ordered history m) (hx : x.after = m') (hw : m'.worker? = none) :
    Ordered (x :: history) m' := by
  refine ⟨fun w hw' => by simp [hw] at hw', fun n => ?_⟩
  rw [callsOf_none (hx ▸ hw)]
  exact h.started n

theorem Ordered.call (h : Ordered history m) {w : Worker} (hx : x.after = m') (hw : m'.worker? = some w)
    (hcalls : callsOf m'.attempt history ++ [w.call] = w.stage.calls w.marker) : Ordered (x :: history) m' := by
  have hrunning : callsOf m'.attempt (x :: history) = w.stage.calls w.marker := by
    rw [callsOf_new (hx ▸ hw) (congrArg Machine.attempt hx), hcalls]
  refine ⟨fun w' hw' => ?_, fun n => ?_⟩
  · obtain rfl := Option.some.inj (hw.symm.trans hw')
    exact hrunning
  · by_cases hn : m'.attempt = n
    · exact Or.inr ⟨w.stage, w.marker, hn ▸ hrunning⟩
    · rw [callsOf_other (by rw [Moment.attempt, hx]; exact hn)]
      exact h.started n

theorem Ordered.handle (h : Ordered history m) (hc : Consistent history m) (now : Nat) (e : Event) :
    Ordered (⟨now, m, e⟩ :: history) (m.handle now e).1 := by
  have hturn := m.handle_turn now e
  have hafter : Moment.after ⟨now, m, e⟩ = (m.handle now e).1 := rfl
  generalize (m.handle now e).1 = m', m.finding? e = f at *
  cases hturn with
  | @ask w d answers stage hp hr =>
    have hrunning := h.running w (by rw [Machine.worker?, hp])
    exact h.call hafter rfl ((congrArg (· ++ [_]) hrunning).trans (Worker.calls_resume (by rw [hr]; rfl)).symm)
  | @reportAndDrain w d answers r stage hp hr =>
    have hrunning := h.running w (by rw [Machine.worker?, hp])
    exact h.call hafter rfl ((congrArg (· ++ [_]) hrunning).trans (Worker.calls_resume (by rw [hr]; rfl)).symm)
  | begin hp _ =>
    have hnone := callsOf_later fun y hy => Nat.lt_succ_of_le (hc.attempt_le y hy)
    exact h.call hafter rfl (congrArg (· ++ [_]) hnone)
  | idle hw => exact h.over hafter hw
  | _ => exact h.over hafter rfl

end Ordered

theorem Machine.worker?_of_stopped {m : Machine} (hp : m.phase = .stopped) (now : Nat) (e : Event) :
    (m.handle now e).1.worker? = none := by
  cases e <;> simp [handle, answer, panic, exit, elapse, worker?, hp]

namespace Course
variable {settings : Settings} {start now : Nat} {history older : List Moment} {m : Machine} {hub : Hub} {x : Moment}

theorem ordered (h : Course settings start now history m hub) : Ordered history m := by
  induction h with
  | start => exact ⟨fun w hw => by simp [Machine.waiting, Machine.worker?] at hw, fun n => Or.inl rfl⟩
  | pass _ _ _ ih => exact ih
  | mail _ _ ih => exact ih
  | event h _ ih => exact ih.handle h.consistent _ _
  | stop h ih => exact ih.handle h.consistent _ .stop

/-- A machine that was stopped stays so. -/
theorem stopped (h : Course settings start now history m hub) {y : Moment} (hy : y ∈ history) (he : y.event = .stop) :
    m.phase = .stopped := by
  induction h with
  | start => cases hy
  | pass _ _ _ ih => exact ih hy
  | mail _ _ ih => exact ih hy
  | @event now history m hub e h hadmits ih =>
    obtain rfl | hy := List.mem_cons.mp hy
    · cases he
      exact hadmits.elim
    · have hp := ih hy
      cases e <;> simp [Machine.Admits, Machine.worker?, Machine.busy, Machine.timer?, hp] at hadmits
  | stop => rfl

/-- A worker that makes a call looks for what its machine did when it came to it. -/
theorem expect_of_call (h : Course settings start now older x.machine hub) {w : Worker}
    (hw : x.after.worker? = some w) : w.expect = x.machine.expect := by
  obtain ⟨time, m, e⟩ := x
  have hturn := m.handle_turn time e
  simp only [Moment.after] at hw
  generalize (m.handle time e).1 = m', m.finding? e = f at *
  cases hturn with
  | ask hp hr | reportAndDrain hp hr =>
    obtain rfl := Option.some.inj hw
    exact (h.trips.trip _ _ hp).expect
  | begin =>
    obtain rfl := Option.some.inj hw
    rfl
  | idle hw' => simp [hw'] at hw
  | _ => simp [Machine.worker?, Machine.delay, Machine.stop] at hw

end Course

/-- The calls of a round trip are the first ones of load, replay, append, save and prune, with one number, one above
what was replayed and loaded; each is made after the answers that it needs, and never once a later round trip has
begun, the worker of its own has exited or was given up on, or the probe was stopped. -/
theorem calls_in_order {settings : Settings} {start now : Nat} {history : List Moment} {m : Machine} {hub : Hub}
    (h : Course settings start now history m hub) :
    (∀ n, ∃ seq payload, callsOf n history <+: fullTrip seq payload) ∧
    ∀ newer x older c, history = newer ++ x :: older → x.call? = some c →
      c.Warranted (x :: older) x.attempt x.machine.expect ∧
      ∀ y ∈ older, y.event ≠ .stop ∧ y.attempt ≤ x.attempt ∧ (y.attempt = x.attempt → y.after.worker? ≠ none) := by
  refine ⟨fun n => ?_, ?_⟩
  · obtain hnone | ⟨stage, marker, hcalls⟩ := h.ordered.started n
    · exact ⟨0, "", by rw [hnone]; exact List.nil_prefix⟩
    · obtain ⟨seq, hprefix⟩ := stage.calls_prefix marker
      exact ⟨seq, marker, hcalls ▸ hprefix⟩
  · rintro newer x older c rfl hcall
    obtain ⟨_, hx⟩ := h.before
    obtain ⟨w, hw, rfl⟩ := Option.map_eq_some_iff.mp hcall
    have hbacking := Backing.handle hx.backing hx.consistent x.time x.event w hw
    refine ⟨?_, fun y hy => ⟨fun he => ?_, ?_, fun hattempt => ?_⟩⟩
    · rw [← hx.expect_of_call hw]
      exact hbacking.backed.warranted w.marker
    · have hnone : x.after.worker? = none := Machine.worker?_of_stopped (hx.stopped hy he) x.time x.event
      cases hnone.symm.trans hw
    · exact (hx.consistent.handle x.time x.event).attempt_le y (List.mem_cons_of_mem x hy)
    · have hbegun := (hx.trips.handle hx.consistent x.time x.event).begun
      exact hbegun (hw ▸ Option.some_ne_none w) y (List.mem_cons_of_mem x hy) hattempt

/-- A second round trip that succeeds makes all its calls, with the next number. -/
theorem in_order_at_second : ∃ now x older m hub,
    Course ⟨"p", .seconds 5, .seconds 10⟩ 0 now (x :: older) m hub ∧
      (∃ payload, callsOf 2 (x :: older) = fullTrip 2 payload) ∧ x.call? = some (.prune 2) ∧
      (Call.prune 2).Warranted (x :: older) 2 ⟨some 1, some 1⟩ ∧ ∀ y ∈ older, y.event ≠ .stop := by
  let stocked := Course.storeOf (some 1) (.ok [1])
  have hcourse := Course.of_script ⟨"p", .seconds 5, .seconds 10⟩
    (List.replicate 4 (.answer stocked) ++ .timer :: .exit ::
      (List.replicate 4 (.answer Course.emptyStore) ++ [.timer])) rfl
  obtain ⟨-, hcalls⟩ := calls_in_order hcourse
  obtain ⟨hwarranted, hbefore⟩ := hcalls [] _ _ (.prune 2) rfl rfl
  exact ⟨_, _, _, _, _, hcourse, ⟨_, rfl⟩, rfl, hwarranted, fun y hy => (hbefore y hy).1⟩

end HealthSignal.RoundTrip
