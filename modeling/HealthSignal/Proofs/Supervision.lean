import HealthSignal.Proofs.Timeline
import HealthSignal.Supervisor

/-! The runs of a supervised component. A run may end at any time and in any way, and shutdown may be requested at
any time; what a supervisor does then follows from what happened so far. -/
namespace HealthSignal
namespace Supervisor
open Timeline

inductive Happening
  | ended (e : RunEnd)
  | elapsed
  | requested

structure Moment where
  time : Nat
  happening : Happening

def handle (s : Supervisor) (now : Nat) : Happening → Supervisor
  | .ended e => s.ended now e
  | .elapsed => s.resume now
  | .requested => s.requestShutdown

/-- A run ends while it is in progress, and the backoff is over exactly when its timer runs out. -/
def Admits (s : Supervisor) (now : Nat) : Happening → Prop
  | .ended _ => s.phase = .running
  | .elapsed => s.phase = .waiting now
  | .requested => True

inductive Course (name : String) (strategy : Strategy) (asked : Bool) (start : Nat) :
    Nat → List Moment → Supervisor → Prop
  | start : Course name strategy asked start start [] (.start name strategy asked start)
  | pass {now later : Nat} {history : List Moment} {s : Supervisor} :
    Course name strategy asked start now history s → now ≤ later → (∀ d, s.timer? = some d → later ≤ d) →
    Course name strategy asked start later history s
  | event {now : Nat} {history : List Moment} {s : Supervisor} {x : Happening} :
    Course name strategy asked start now history s → s.Admits now x →
    Course name strategy asked start now (⟨now, x⟩ :: history) (s.handle now x)

def Asked (asked : Bool) (history : List Moment) : Prop :=
  asked = true ∨ ∃ x ∈ history, x.happening = .requested

/-- Shutdown was requested by time `d`, and before a run started then. -/
def AskedBefore (asked : Bool) (d : Nat) : List Moment → Prop
  | [] => asked = true
  | x :: older => AskedBefore asked d older ∨
    x.happening = .requested ∧ x.time ≤ d ∧ ∀ y ∈ older, y.happening = .elapsed → y.time < d

def laterStarts : List Moment → List Nat
  | [] => []
  | ⟨t, .elapsed⟩ :: older => t :: laterStarts older
  | _ :: older => laterStarts older

def finished : List Moment → Nat
  | [] => 0
  | ⟨_, .ended _⟩ :: older => finished older + 1
  | _ :: older => finished older

/-- When and how the last run ended, with what had happened before; nothing if it is in progress. -/
def lastEnd? : List Moment → Option (Nat × RunEnd × List Moment)
  | [] => none
  | ⟨t, .ended e⟩ :: older => some (t, e, older)
  | ⟨_, .elapsed⟩ :: _ => none
  | ⟨_, .requested⟩ :: older => lastEnd? older

section
variable {name : String} {strategy : Strategy} {asked : Bool} {start now d t : Nat} {history older : List Moment}
  {s s' : Supervisor} {x : Happening} {e : RunEnd} {reason : String}

inductive Turn (s : Supervisor) (now : Nat) : Happening → Supervisor → Prop
  | ended (e : RunEnd) : s.phase = .running → Turn s now (.ended e) { s with phase := s.afterRun now e }
  | elapsed : s.phase = .waiting now →
    Turn s now .elapsed { s with phase := .running, restarts := s.restarts + 1, starts := now :: s.starts }
  | interrupted {d : Nat} : s.phase = .waiting d →
    Turn s now .requested { s with shutdown := true, phase := .exited .shutdown }
  | requested : (∀ d, s.phase ≠ .waiting d) → Turn s now .requested { s with shutdown := true }

theorem turn (h : s.Admits now x) : s.Turn now x (s.handle now x) := by
  cases x with
  | ended e =>
    have hp : s.phase = .running := h
    have : s.handle now (.ended e) = { s with phase := s.afterRun now e } := by simp only [handle, Supervisor.ended, hp]
    rw [this]
    exact .ended e hp
  | elapsed =>
    have hp : s.phase = .waiting now := h
    have : s.handle now .elapsed =
        { s with phase := .running, restarts := s.restarts + 1, starts := now :: s.starts } := by
      simp only [handle, resume, hp]
    rw [this]
    exact .elapsed hp
  | requested =>
    obtain ⟨name, strategy, phase, restarts, shutdown, starts⟩ := s
    cases phase with
    | waiting d => exact .interrupted rfl
    | running | exited => exact .requested (by simp)

inductive After (s : Supervisor) (now : Nat) (e : RunEnd) : Phase → Prop
  | completed : e = .completed → s.shutdown = false → After s now e (.exited .completed)
  | late : e = .completed → s.shutdown = true → After s now e (.exited .shutdown)
  | failed {reason : String} : complaint s.name e = some reason → s.strategy = .stop →
    After s now e (.exited (.failed reason))
  | asked {reason : String} {b : Duration} : complaint s.name e = some reason → s.strategy = .restart b →
    s.shutdown = true → After s now e (.exited .shutdown)
  | backoff {reason : String} {b : Duration} : complaint s.name e = some reason → s.strategy = .restart b →
    s.shutdown = false → After s now e (.waiting (now + b.timer))

theorem complaint_eq_none : complaint name e = none ↔ e = .completed := by
  cases e <;> simp [complaint]

theorem after (s : Supervisor) (now : Nat) (e : RunEnd) : s.After now e (s.afterRun now e) := by
  unfold afterRun
  cases hc : complaint s.name e with
  | none =>
    have he := complaint_eq_none.mp hc
    cases hs : s.shutdown with
    | false => exact .completed he hs
    | true => exact .late he hs
  | some reason =>
    cases hstrategy : s.strategy with
    | stop => exact .failed hc hstrategy
    | restart b =>
      cases hs : s.shutdown with
      | false => exact .backoff hc hstrategy hs
      | true => exact .asked hc hstrategy hs

theorem asked_cons {x : Moment} :
    Asked asked (x :: history) ↔ x.happening = .requested ∨ Asked asked history := by
  simp [Asked, or_left_comm]

theorem AskedBefore.was_asked (h : AskedBefore asked d history) : Asked asked history := by
  induction history with
  | nil => exact Or.inl h
  | cons x older ih =>
    obtain hold | ⟨hx, -⟩ := h
    · exact asked_cons.mpr (Or.inr (ih hold))
    · exact asked_cons.mpr (Or.inl hx)

/-- What was requested earlier was requested before. -/
theorem askedBefore_of_lt (h : Asked asked history) (htimes : ∀ y ∈ history, y.time < d) :
    AskedBefore asked d history := by
  induction history with
  | nil => exact h.resolve_right (by simp)
  | cons x older ih =>
    have holder : ∀ y ∈ older, y.time < d := fun y hy => htimes y (List.mem_cons_of_mem x hy)
    obtain hx | hold := asked_cons.mp h
    · exact Or.inr ⟨hx, Nat.le_of_lt (htimes x List.mem_cons_self), fun y hy _ => holder y hy⟩
    · exact Or.inl (ih hold holder)

/-- Once a run has started at its time, a request comes too late. -/
theorem not_askedBefore_append (newer : List Moment) (h : ¬AskedBefore asked d history)
    (hstarted : ⟨d, .elapsed⟩ ∈ history) : ¬AskedBefore asked d (newer ++ history) := by
  induction newer with
  | nil => exact h
  | cons x newer ih =>
    rintro (hold | ⟨-, -, hbefore⟩)
    · exact ih hold
    · exact Nat.lt_irrefl d (hbefore _ (List.mem_append_right _ hstarted) rfl)

namespace Course

/-- What a supervisor has been given and counts. -/
theorem counts (h : Course name strategy asked start now history s) :
    s.name = name ∧ s.strategy = strategy ∧ (s.shutdown = true ↔ Asked asked history) ∧
      s.starts = laterStarts history ++ [start] ∧ s.restarts + 1 = s.starts.length ∧
      s.starts.length = finished history + (if s.phase = .running then 1 else 0) := by
  induction h with
  | start => simp [Supervisor.start, Asked, laterStarts, finished]
  | pass _ _ _ ih => exact ih
  | @event now history s x h hadmits ih =>
    obtain ⟨hname, hstrategy, hshutdown, hstarts, hrestarts, hfinished⟩ := ih
    have hturn := turn hadmits
    generalize s.handle now x = s' at hturn
    cases hturn with
    | ended e hp =>
      refine ⟨hname, hstrategy, by simpa [asked_cons] using hshutdown, hstarts, hrestarts, ?_⟩
      have := s.after now e
      generalize s.afterRun now e = p at this
      rw [hp] at hfinished
      cases this <;> simpa [finished] using hfinished
    | elapsed hp =>
      refine ⟨hname, hstrategy, by simpa [asked_cons] using hshutdown, by simp [laterStarts, hstarts], ?_, ?_⟩
      · simp [hrestarts]
      · simpa [finished, hp] using hfinished
    | interrupted hp =>
      refine ⟨hname, hstrategy, by simp [asked_cons], hstarts, hrestarts, ?_⟩
      simpa [finished, hp] using hfinished
    | requested hp =>
      exact ⟨hname, hstrategy, by simp [asked_cons], hstarts, hrestarts, hfinished⟩

theorem times (h : Course name strategy asked start now history s) : ∀ x ∈ history, x.time ≤ now := by
  induction h with
  | start => simp
  | pass _ hle _ ih => exact fun x hx => Nat.le_trans (ih x hx) hle
  | event _ _ ih =>
    intro x hx
    obtain rfl | hx := List.mem_cons.mp hx
    · exact Nat.le_refl _
    · exact ih x hx

/-- Time does not pass the end of a backoff. -/
theorem timely (h : Course name strategy asked start now history s) : ∀ d, s.phase = .waiting d → now ≤ d := by
  induction h with
  | start => simp [Supervisor.start]
  | @pass _ _ _ s _ _ hd _ => exact fun d hp => hd d (by rw [timer?, hp])
  | @event now history s x h hadmits ih =>
    have hturn := turn hadmits
    generalize s.handle now x = s' at hturn
    cases hturn with
    | ended e hp =>
      intro d hd
      have hafter := s.after now e
      rw [show s.afterRun now e = .waiting d from hd] at hafter
      cases hafter
      exact Nat.le_add_right _ _
    | requested => exact ih
    | elapsed | interrupted => simp

end Course

inductive Position (name : String) (strategy : Strategy) (asked : Bool) (history : List Moment) : Phase → Prop
  | running : lastEnd? history = none → Position name strategy asked history .running
  | waiting {t : Nat} {e : RunEnd} {older : List Moment} {reason : String} {b : Duration} :
    history = ⟨t, .ended e⟩ :: older → complaint name e = some reason → strategy = .restart b →
    ¬Asked asked history → (∀ x ∈ history, x.time ≤ t) →
    Position name strategy asked history (.waiting (t + b.timer))
  | completed {t : Nat} {older : List Moment} : lastEnd? history = some (t, .completed, older) →
    ¬Asked asked older → Position name strategy asked history (.exited .completed)
  | late {t : Nat} {older : List Moment} : lastEnd? history = some (t, .completed, older) →
    Asked asked older → Position name strategy asked history (.exited .shutdown)
  | failed {t : Nat} {e : RunEnd} {older : List Moment} {reason : String} : lastEnd? history = some (t, e, older) →
    complaint name e = some reason → strategy = .stop →
    Position name strategy asked history (.exited (.failed reason))
  | interrupted {t : Nat} {e : RunEnd} {older : List Moment} {reason : String} {b : Duration} :
    lastEnd? history = some (t, e, older) → complaint name e = some reason → strategy = .restart b →
    AskedBefore asked (t + b.timer) history → Position name strategy asked history (.exited .shutdown)

theorem Position.lastEnd (h : Position name strategy asked history s.phase) :
    s.phase = .running ↔ lastEnd? history = none := by
  generalize s.phase = p at h
  cases h with
  | running hlast => simp [hlast]
  | waiting hhistory => simp [hhistory, lastEnd?]
  | completed hlast | late hlast | failed hlast | interrupted hlast => simp [hlast]

theorem Course.position (hb : ∀ b, strategy = .restart b → 0 < b.timer)
    (h : Course name strategy asked start now history s) : Position name strategy asked history s.phase := by
  induction h with
  | start => exact .running rfl
  | pass _ _ _ ih => exact ih
  | @event now history s x h hadmits ih =>
    obtain ⟨rfl, rfl, hshutdown, -⟩ := h.counts
    have hturn := turn hadmits
    generalize s.handle now x = s' at hturn
    cases hturn with
    | ended e hp =>
      have hafter := s.after now e
      show Position s.name s.strategy asked (⟨now, .ended e⟩ :: history) (s.afterRun now e)
      generalize s.afterRun now e = p at hafter
      have hstill : s.shutdown = false → ¬Asked asked history := fun hs ha => by simp [hshutdown.mpr ha] at hs
      cases hafter with
      | completed he hs =>
        subst he
        exact .completed rfl (hstill hs)
      | late he hs =>
        subst he
        exact .late rfl (hshutdown.mp hs)
      | failed hc hstop => exact .failed rfl hc hstop
      | asked hc hrestart hs =>
        refine .interrupted rfl hc hrestart (Or.inl (askedBefore_of_lt (hshutdown.mp hs) fun y hy => ?_))
        exact Nat.lt_of_le_of_lt (h.times y hy) (Nat.lt_add_of_pos_right (hb _ hrestart))
      | backoff hc hrestart hs =>
        refine .waiting rfl hc hrestart (by simpa [asked_cons] using hstill hs) fun x hx => ?_
        obtain rfl | hx := List.mem_cons.mp hx
        · exact Nat.le_refl _
        · exact h.times x hx
    | elapsed hp => exact .running rfl
    | @interrupted d hp =>
      have hle := h.timely d hp
      rw [hp] at ih
      cases ih with
      | waiting hhistory hc hrestart _ htimes =>
        refine .interrupted (by rw [hhistory]; rfl) hc hrestart (Or.inr ⟨rfl, hle, fun y hy _ => ?_⟩)
        exact Nat.lt_of_le_of_lt (htimes y hy) (Nat.lt_add_of_pos_right (hb _ hrestart))
    | requested hp =>
      show Position s.name s.strategy asked (⟨now, .requested⟩ :: history) s.phase
      generalize s.phase = p at *
      cases ih with
      | running hlast => exact .running hlast
      | waiting => exact absurd rfl (hp _)
      | completed hlast hasked => exact .completed hlast hasked
      | late hlast hasked => exact .late hlast hasked
      | failed hlast hc hstop => exact .failed hlast hc hstop
      | interrupted hlast hc hrestart hasked => exact .interrupted hlast hc hrestart (Or.inl hasked)

/-- Whether and how a supervisor has left, once its last run has ended. -/
theorem Position.exit (h : Position name strategy asked history s.phase)
    (hlast : lastEnd? history = some (t, e, older)) :
    (s.exit? = some .completed ↔ e = .completed ∧ ¬Asked asked older) ∧
    (∀ reason, s.exit? = some (.failed reason) ↔ complaint name e = some reason ∧ strategy = .stop) ∧
    (s.exit? = some .shutdown ↔ e = .completed ∧ Asked asked older ∨
      e ≠ .completed ∧ ∃ b, strategy = .restart b ∧ AskedBefore asked (t + b.timer) history) := by
  have hfailed : ∀ {reason}, complaint name e = some reason → e ≠ .completed := fun hc he => by
    simp [complaint_eq_none.mpr he] at hc
  generalize hp : s.phase = p at h
  cases h with
  | running hrunning => cases hlast.symm.trans hrunning
  | waiting hhistory hc hs hasked =>
    obtain ⟨rfl, rfl, rfl⟩ : _ = t ∧ _ = e ∧ _ = older := by simpa [hhistory, lastEnd?] using hlast
    have hbefore : ∀ d, ¬AskedBefore asked d history := fun d h => hasked h.was_asked
    simp [exit?, hp, hfailed hc, hs, hbefore]
  | completed hlast' hasked =>
    obtain ⟨rfl, rfl, rfl⟩ : _ = t ∧ _ = e ∧ _ = older := by simpa [hlast] using hlast'.symm
    simp [exit?, hp, hasked, complaint]
  | late hlast' hasked =>
    obtain ⟨rfl, rfl, rfl⟩ : _ = t ∧ _ = e ∧ _ = older := by simpa [hlast] using hlast'.symm
    simp [exit?, hp, hasked, complaint]
  | failed hlast' hc hs =>
    obtain ⟨rfl, rfl, rfl⟩ : _ = t ∧ _ = e ∧ _ = older := by simpa [hlast] using hlast'.symm
    simp [exit?, hp, hfailed hc, hs, hc]
  | interrupted hlast' hc hs hbefore =>
    obtain ⟨rfl, rfl, rfl⟩ : _ = t ∧ _ = e ∧ _ = older := by simpa [hlast] using hlast'.symm
    simp [exit?, hp, hfailed hc, hs, hbefore]

/-- Every moment was met by a supervisor of its own. -/
theorem Course.before {newer : List Moment} {x : Moment}
    (h : Course name strategy asked start now (newer ++ x :: older) s) :
    ∃ s', Course name strategy asked start x.time older s' ∧ s'.Admits x.time x.happening := by
  generalize hhistory : newer ++ x :: older = history at h
  induction h generalizing newer with
  | start => simp at hhistory
  | pass _ _ _ ih => exact ih hhistory
  | event h hadmits ih =>
    cases newer with
    | nil =>
      obtain ⟨rfl, rfl⟩ := List.cons.inj hhistory
      exact ⟨_, h, hadmits⟩
    | cons y newer => exact ih (List.cons.inj hhistory).2

variable {newer : List Moment} {b : Duration}

theorem oldest_start (h : ∃ y ∈ newer, y.happening = .elapsed) :
    ∃ later t between, newer = later ++ ⟨t, .elapsed⟩ :: between ∧ ∀ y ∈ between, y.happening ≠ .elapsed := by
  induction newer with
  | nil => simp at h
  | cons x newer ih =>
    by_cases hrest : ∃ y ∈ newer, y.happening = .elapsed
    · obtain ⟨later, t, between, rfl, hbetween⟩ := ih hrest
      exact ⟨x :: later, t, between, rfl, hbetween⟩
    · obtain ⟨y, hy, hstarts⟩ := h
      obtain rfl | hy := List.mem_cons.mp hy
      · obtain ⟨t, x⟩ := y
        obtain rfl : x = .elapsed := hstarts
        exact ⟨[], t, newer, rfl, fun y hy hs => hrest ⟨y, hy, hs⟩⟩
      · exact absurd ⟨y, hy, hstarts⟩ hrest

section
variable (hb : ∀ b, strategy = .restart b → 0 < b.timer)
include hb

/-- A run that has ended is the last one until another one starts. -/
theorem Course.lastEnd_append (h : Course name strategy asked start now (newer ++ ⟨t, .ended e⟩ :: older) s)
    (hnone : ∀ y ∈ newer, y.happening ≠ .elapsed) :
    lastEnd? (newer ++ ⟨t, .ended e⟩ :: older) = some (t, e, older) := by
  induction newer generalizing now s with
  | nil => rfl
  | cons y newer ih =>
    have hnewest : Course name strategy asked start now ([] ++ y :: (newer ++ ⟨t, .ended e⟩ :: older)) s := h
    obtain ⟨s', h', hadmits⟩ := hnewest.before
    have hlast := ih h' fun z hz => hnone z (List.mem_cons_of_mem y hz)
    obtain ⟨ty, x⟩ := y
    cases x with
    | requested => exact hlast
    | elapsed => exact absurd rfl (hnone _ List.mem_cons_self)
    | ended e' =>
      have hnone := (h'.position hb).lastEnd.mp hadmits
      cases hlast.symm.trans hnone

/-- A run starts after the first only at the end of the backoff that follows the failure of the one before. -/
theorem Course.started (h : Course name strategy asked start now (newer ++ ⟨t, .elapsed⟩ :: older) s) :
    ∃ t' e older' reason b, older = ⟨t', .ended e⟩ :: older' ∧ complaint name e = some reason ∧
      strategy = .restart b ∧ t = t' + b.timer ∧ ¬Asked asked older := by
  obtain ⟨s', h', (hp : s'.phase = .waiting t)⟩ := h.before
  have hposition := h'.position hb
  rw [hp] at hposition
  cases hposition with
  | waiting holder hc hs hasked => exact ⟨_, _, _, _, _, holder, hc, hs, rfl, hasked⟩

/-- The next run after one that failed starts at the end of its backoff, before anything else happens. -/
theorem Course.next_start (h : Course name strategy asked start now (newer ++ ⟨t, .ended e⟩ :: older) s)
    (hs : strategy = .restart b) (hstarted : ∃ y ∈ newer, y.happening = .elapsed) :
    ∃ later, newer = later ++ [⟨t + b.timer, .elapsed⟩] ∧ ¬Asked asked (⟨t, .ended e⟩ :: older) := by
  obtain ⟨later, ty, between, rfl, hbetween⟩ := oldest_start hstarted
  rw [List.append_assoc, List.cons_append] at h
  obtain ⟨s', h', -⟩ := h.before
  have hlast := h'.lastEnd_append hb hbetween
  obtain ⟨t', e', older', reason, b', holder, -, hs', rfl, hasked⟩ := h.started hb
  rw [holder] at hlast
  obtain ⟨rfl, rfl, rfl⟩ : t' = t ∧ e' = e ∧ older' = older := by simpa [lastEnd?] using hlast
  obtain rfl := Strategy.restart.inj (hs.symm.trans hs')
  obtain rfl : between = [] := List.append_left_eq_self.mp holder
  exact ⟨later, rfl, hasked⟩

/-- It does so unless shutdown is requested before. -/
theorem Course.next_start_iff (h : Course name strategy asked start now (newer ++ ⟨t, .ended e⟩ :: older) s)
    (hsettled : Settled timer? now s) (hc : complaint name e = some reason) (hs : strategy = .restart b)
    (hle : t + b.timer ≤ now) :
    (∃ later, newer = later ++ [⟨t + b.timer, .elapsed⟩]) ↔
      ¬AskedBefore asked (t + b.timer) (newer ++ ⟨t, .ended e⟩ :: older) := by
  constructor
  · rintro ⟨later, rfl⟩
    obtain ⟨-, -, hasked⟩ := h.next_start hb hs ⟨_, List.mem_append_right _ List.mem_cons_self, rfl⟩
    rw [List.append_assoc, List.cons_append, List.nil_append]
    refine not_askedBefore_append later (fun hbefore => hasked ?_) List.mem_cons_self
    simpa [asked_cons] using hbefore.was_asked
  · intro hnot
    by_cases hstarted : ∃ y ∈ newer, y.happening = .elapsed
    · obtain ⟨later, hnewer, -⟩ := h.next_start hb hs hstarted
      exact ⟨later, hnewer⟩
    · exfalso
      have hlast := h.lastEnd_append hb fun y hy hstarts => hstarted ⟨y, hy, hstarts⟩
      have hposition := h.position hb
      generalize hp : s.phase = p at hposition
      cases hposition with
      | running hrunning => cases hlast.symm.trans hrunning
      | waiting hhistory _ hs' _ =>
        rw [hhistory] at hlast
        obtain ⟨rfl, -⟩ : _ = t ∧ _ := by simpa [lastEnd?] using hlast
        obtain rfl := Strategy.restart.inj (hs.symm.trans hs')
        have := hsettled _ (by rw [timer?, hp])
        omega
      | completed hlast' | late hlast' =>
        obtain ⟨-, rfl, -⟩ : _ ∧ e = .completed ∧ _ := by simpa [hlast] using hlast'
        cases hc
      | failed _ _ hstop => cases hs.symm.trans hstop
      | interrupted hlast' _ hs' hbefore =>
        obtain ⟨rfl, -⟩ : t = _ ∧ _ := by simpa [hlast] using hlast'
        obtain rfl := Strategy.restart.inj (hs.symm.trans hs')
        exact hnot hbefore

end

/-- The law of the runs under a supervisor. The first one starts at once, and there is never more than one in
progress. Another one starts only, and then exactly, at the end of the backoff after a failure, if shutdown has not
been requested by then. How supervision ends depends on the last run, on the strategy, and on whether shutdown was
requested before the run ended or, when it failed, before the backoff was over. -/
theorem run_law (hb : ∀ b, strategy = .restart b → 0 < b.millis)
    (h : Course name strategy asked start now history s) :
    (s.starts = laterStarts history ++ [start] ∧ s.restarts + 1 = s.starts.length ∧
      s.starts.length = finished history + (if s.phase = .running then 1 else 0)) ∧
    (∀ newer t older, history = newer ++ ⟨t, .elapsed⟩ :: older → ∃ t' e older' reason b,
      older = ⟨t', .ended e⟩ :: older' ∧ complaint name e = some reason ∧ strategy = .restart b ∧
        t = t' + b.timer ∧ ¬Asked asked older) ∧
    (Settled timer? now s → ∀ newer t e older reason b, history = newer ++ ⟨t, .ended e⟩ :: older →
      complaint name e = some reason → strategy = .restart b → t + b.timer ≤ now →
        ((∃ later, newer = later ++ [⟨t + b.timer, .elapsed⟩]) ↔ ¬AskedBefore asked (t + b.timer) history)) ∧
    (lastEnd? history = none → s.exit? = none) ∧
    ∀ t e older, lastEnd? history = some (t, e, older) →
      (s.exit? = some .completed ↔ e = .completed ∧ ¬Asked asked older) ∧
      (∀ reason, s.exit? = some (.failed reason) ↔ complaint name e = some reason ∧ strategy = .stop) ∧
      (s.exit? = some .shutdown ↔ e = .completed ∧ Asked asked older ∨
        e ≠ .completed ∧ ∃ b, strategy = .restart b ∧ AskedBefore asked (t + b.timer) history) := by
  have hb : ∀ b, strategy = .restart b → 0 < b.timer := fun b hs => Nat.lt_min.mpr ⟨hb b hs, by decide⟩
  obtain ⟨-, -, -, hstarts, hrestarts, hfinished⟩ := h.counts
  refine ⟨⟨hstarts, hrestarts, hfinished⟩, fun newer t older hhistory => ?_,
    fun hsettled newer t e older reason b hhistory hc hs hle => ?_, fun hlast => ?_,
    fun t e older hlast => (h.position hb).exit hlast⟩
  · subst hhistory
    exact h.started hb
  · subst hhistory
    exact h.next_start_iff hb hsettled hc hs hle
  · rw [exit?, (h.position hb).lastEnd.mpr hlast]

end

/-- A run that fails at time five is followed by another one a second later; when this one completes, so has the
component. -/
theorem completes_at_second : ∃ history s, Course "c" (.restart ⟨1000⟩) false 0 1005 history s ∧
    s.starts = [1005, 0] ∧ s.restarts = 1 ∧ s.exit? = some .completed := by
  have hstart : Course "c" (.restart ⟨1000⟩) false 0 0 _ _ := .start
  have hrunning : Course _ _ _ 0 5 _ _ := hstart.pass (by decide) (by simp [Supervisor.start, timer?])
  have hfailed := hrunning.event (x := .ended (.failed "m")) rfl
  have hwaited : Course _ _ _ 0 1005 _ _ := hfailed.pass (by decide) fun d hd => Nat.le_of_eq (Option.some.inj hd)
  have hagain := (hwaited.event (x := .elapsed) rfl).event (x := .ended .completed) rfl
  obtain ⟨⟨hstarts, hrestarts, -⟩, -, -, -, hexit⟩ := run_law (fun b hb => by cases hb; decide) hagain
  refine ⟨_, _, hagain, hstarts, ?_, (hexit _ _ _ rfl).1.mpr ⟨rfl, by simp [Asked]⟩⟩
  rw [hstarts] at hrestarts
  exact Nat.succ.inj hrestarts

/-- A backoff beyond thirty years is cut short: the next run starts before it has passed. -/
theorem not_backoff_millis : ¬∀ (name : String) (strategy : Strategy) (asked : Bool) (start now : Nat)
    (history : List Moment) (s : Supervisor), (∀ b, strategy = .restart b → 0 < b.millis) →
    Course name strategy asked start now history s →
    ∀ newer t t' e older b, history = newer ++ ⟨t, .elapsed⟩ :: ⟨t', .ended e⟩ :: older →
      strategy = .restart b → t = t' + b.millis := by
  intro h
  have hstart : Course "c" (.restart ⟨1000000000000⟩) false 0 0 _ _ := .start
  have hfailed := hstart.event (x := .ended (.failed "m")) rfl
  have hwaited : Course _ _ _ 0 946080000000 _ _ :=
    hfailed.pass (by decide) fun d hd => Nat.le_of_eq (Option.some.inj hd)
  have hagain := hwaited.event (x := .elapsed) rfl
  have := h _ _ _ _ _ _ _ (fun b hb => by cases hb; decide) hagain [] _ _ _ _ _ rfl rfl
  exact absurd this (by decide)

end Supervisor

namespace Rehearsal
open Timeline Supervisor

def Move (r r' : Rehearsal) : Prop := r' = r.requestShutdown

/-- Every run of a rehearsed component is a course of its supervisor. -/
theorem reaches_course {name : String} {strategy : Strategy} {asked : Bool} {plans : Nat → RunPlan}
    {start now : Nat} {r : Rehearsal}
    (h : Reaches due act Move start (.start name strategy asked plans start) now r) :
    ∃ history, Course name strategy asked start now history r.supervisor := by
  induction h with
  | refl => exact ⟨[], .start⟩
  | @act now d r _ hd ih =>
    obtain ⟨history, hc⟩ := ih
    cases hp : r.supervisor.phase with
    | running =>
      have hpass := hc.pass (Nat.le_max_right d now) fun d' hd' => by simp [timer?, hp] at hd'
      have := hpass.event (x := .ended r.plan.result) hp
      simp only [Rehearsal.act, hp]
      exact ⟨_, this⟩
    | waiting resume =>
      obtain rfl : resume = d := by simpa [due, hp] using hd
      rw [Nat.max_eq_left (hc.timely resume hp)]
      have hpass := hc.pass (hc.timely resume hp) fun d' hd' =>
        Nat.le_of_eq (by simpa [timer?, hp] using hd')
      have := hpass.event (x := .elapsed) hp
      simp only [Rehearsal.act, hp]
      exact ⟨_, this⟩
    | exited x => simp [due, hp] at hd
  | @pass now later r _ hle hd ih =>
    obtain ⟨history, hc⟩ := ih
    refine ⟨history, hc.pass hle fun d hd' => ?_⟩
    have hp : r.supervisor.phase = .waiting d := by
      unfold timer? at hd'
      split at hd' <;> simp_all
    have := hd d (by simp [due, hp])
    rwa [Nat.max_eq_left (hc.timely d hp)] at this
  | move _ hm ih =>
    obtain ⟨history, hc⟩ := ih
    subst hm
    exact ⟨_, hc.event (x := .requested) trivial⟩

end Rehearsal
end HealthSignal
