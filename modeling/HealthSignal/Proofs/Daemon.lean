import HealthSignal.Daemon
import HealthSignal.Proofs.Assembly
import HealthSignal.Proofs.Probe.Build

/-! Starting a daemon. The first duration that is invalid ends it before anything is opened or started; without one it
starts, and a signal that it cannot prove stays down. -/
namespace HealthSignal

/-! ### The configured durations -/

def Duration.invalid (text : String) : Bool := (Duration.parse? text).isNone

inductive Reads {α : Type} : List String → Except ConfigError α → Prop
  | done {texts : List String} (a : α) : texts.find? Duration.invalid = none → Reads texts (.ok a)
  | failed {texts : List String} {text : String} : texts.find? Duration.invalid = some text →
    Reads texts (.error (.duration text))

namespace Reads
variable {α β : Type} {texts more : List String}

theorem readOr (default : Duration) (text : Option String) : Reads text.toList (Duration.readOr default text) := by
  cases text with
  | none => exact .done default rfl
  | some text =>
    show Reads [text] (Duration.read text)
    unfold Duration.read
    cases hparse : Duration.parse? text with
    | some d =>
      have hfind : [text].find? Duration.invalid = none := by simp [Duration.invalid, hparse]
      exact .done d hfind
    | none =>
      have hfind : [text].find? Duration.invalid = some text := by simp [Duration.invalid, hparse]
      exact .failed hfind

theorem nothing (a : α) : Reads [] (pure a) := .done a rfl

theorem bind {x : Except ConfigError α} {f : α → Except ConfigError β} (h : Reads texts x)
    (hf : ∀ a, Reads more (f a)) : Reads (texts ++ more) (x >>= f) := by
  cases h with
  | done a hnone =>
    have h' : Reads more (f a) := hf a
    show Reads (texts ++ more) (f a)
    generalize f a = y at h'
    cases h' with
    | done b hmore => exact .done b (by rw [List.find?_append, hnone, hmore]; rfl)
    | failed hmore => exact .failed (by rw [List.find?_append, hnone, hmore]; rfl)
  | failed hsome => exact .failed (by rw [List.find?_append, hsome]; rfl)

end Reads

namespace Config

def durations (c : Config) : List String :=
  [c.transport.deadline, c.transport.restartBackoff, c.http.askTimeout, c.persistence.timeout, c.persistence.interval,
    c.cluster.isolationDebounce].flatMap Option.toList

theorem reads_limits (c : Config) : Reads c.durations c.limits := by
  have hroundTrips : Reads (c.persistence.timeout.toList ++ (c.persistence.interval.toList ++ [])) c.roundTrips :=
    .bind (.readOr ..) fun _ => .bind (.readOr ..) fun _ => .nothing _
  have h : Reads _ c.limits := .bind (.readOr ..) fun _ => .bind (.readOr ..) fun _ => .bind (.readOr ..) fun _ =>
    .bind hroundTrips fun _ => .bind (.readOr ..) fun _ => .nothing _
  simpa [durations] using h

def Persists (c : Config) : Prop := Provider.resolve .liveness (c.provider .liveness) = .ok .persistence

def journal (c : Config) (g : Journal.Engine) (t : FileTree) : FileTree × Except JournalError Journal :=
  Journal.openFile g t (.ofString c.persistence.path)

end Config

namespace Daemon
variable {g : Journal.Engine} {c : Config} {t : FileTree} {l : Limits} {now : Nat} {d : Daemon} {s : Signal}
  {I : Probe → Prop}

/-! ### The start -/

def nothing (c : Config) (t : FileTree) : Assembly := .new (Feed.standalone c.node.id).close [] t

def means (g : Journal.Engine) (c : Config) (t : FileTree) (l : Limits) : Probe.Means :=
  ⟨c.node.id, .standalone c.node.id, (openJournal g c t).2, l.roundTrips, l.isolationDebounce⟩

def built (g : Journal.Engine) (c : Config) (t : FileTree) (l : Limits) (now : Nat) : Assembly :=
  addProbes c (means g c t l) now (nothing c (openJournal g c t).1)

def started (g : Journal.Engine) (c : Config) (t : FileTree) (l : Limits) (now : Nat) : Assembly :=
  addComponent c l now (addComponent c l now (built g c t l now) .liveness) .readiness

theorem start_failed {e : ConfigError} (h : c.limits = .error e) : start g c t now = (nothing c t, .error e) := by
  unfold start launch
  rw [h]
  rfl

theorem run_launch (h : c.limits = .ok l) :
    (launch g c now).run (nothing c t) = (.ok l.askTimeout, started g c t l now) := by
  unfold launch started built means
  simp only [h, ofExcept, List.forIn_cons, List.forIn_nil, pure_bind, bind_assoc]
  generalize addComponent c l now = add, addProbes c = build, openJournal g c = journal
  rfl

theorem start_done (h : c.limits = .ok l) :
    start g c t now = (started g c t l now, .ok ⟨started g c t l now, l.askTimeout⟩) := by
  have hrun : (launch g c now).run (.new (Feed.standalone c.node.id).close [] t) = _ := run_launch h
  unfold start
  rw [hrun]
  rfl

theorem openJournal_of_persists (h : c.Persists) : openJournal g c t = c.journal g t := by
  unfold openJournal
  rw [h]
  rfl

theorem openJournal_of_not (h : ¬c.Persists) : openJournal g c t = (t, .error unwanted) := by
  unfold openJournal
  split
  · next hresolve => exact absurd hresolve h
  · rfl

theorem probe?_built (s : Signal) :
    (built g c t l now).probe? s.name = some (Probe.build s (c.provider s) (means g c t l) now) := by
  cases s <;> rfl

theorem surroundings_addComponent (a : Assembly) (s : Signal) :
    (addComponent c l now a s).surroundings = a.surroundings := by
  unfold addComponent
  split
  · rfl
  · exact Assembly.surroundings_addSync ..

theorem files_started : (started g c t l now).surroundings.files = (openJournal g c t).1 := by
  rw [started, surroundings_addComponent, surroundings_addComponent, built]
  generalize openJournal g c t = journal
  rfl

theorem has_addComponent {a : Assembly} {key : String} (hI : KeptByMail I) (h : a.Has I key) (s : Signal) :
    (addComponent c l now a s).Has I key := by
  unfold addComponent
  split
  · exact h
  · exact h.addSync hI ..

/-- What is true of a probe when it is built is true of it when everything has started. -/
theorem has_started (hI : KeptByMail I) (h : I (Probe.build s (c.provider s) (means g c t l) now)) :
    (started g c t l now).Has I s.name :=
  has_addComponent hI (has_addComponent hI ⟨_, probe?_built s, h⟩ _) _

/-! ### All its life -/

inductive Deed
  | advance (now horizon : Nat)
  | files (t : FileTree)
  | mail (s : Signal) (m : Mail)
  | stop (s : Signal)
  | cancel
  | shutdown (now : Nat)

def perform (d : Daemon) : Deed → Daemon
  | .advance now horizon => d.advance now horizon
  | .files t => d.setFiles t
  | .mail s m => { d with assembly := (d.assembly.command s.name (·.command m.deliver)).1 }
  | .stop s => { d with assembly := d.assembly.stopProbe s.name }
  | .cancel => d.cancel
  | .shutdown now => d.shutdown now

def after (d : Daemon) (deeds : List Deed) : Daemon := deeds.foldl perform d

theorem has_perform {key : String} (hI : Steady I) (h : d.assembly.Has I key) (deed : Deed) :
    (d.perform deed).assembly.Has I key := by
  cases deed with
  | advance now horizon => exact h.advance hI now horizon
  | files t => exact h.of_probes rfl
  | mail s m => exact h.mail hI.mail m s.name
  | stop s => exact h.stopProbe hI s.name
  | cancel => exact h.of_probes rfl
  | shutdown now =>
    have hcancel : d.cancel.assembly.Has I key := h.of_probes rfl
    exact ((hcancel.advance hI now now).stopProbe hI _).stopProbe hI _

theorem has_after {key : String} (hI : Steady I) (h : d.assembly.Has I key) (deeds : List Deed) :
    (d.after deeds).assembly.Has I key :=
  List.foldlRecOn (motive := fun x : Daemon => x.assembly.Has I key) deeds _ h fun _ hx deed _ => has_perform hI hx deed

/-- Whatever happens, the probe of a signal shows and tells nothing but one status, which is down. -/
def StaysDown (d : Daemon) (s : Signal) (st : Status) : Prop :=
  st.up = false ∧ ∀ deeds, ∃ p, (d.after deeds).probe? s = some p ∧ p.hub.Says (· = st)

theorem staysDown_of_unavailable {reason : String} (hd : d.assembly = started g c t l now)
    (h : Probe.build s (c.provider s) (means g c t l) now = Probe.unavailable s reason) :
    d.StaysDown s (misconfigured s reason) := by
  refine ⟨rfl, fun deeds => ?_⟩
  have hI := Probe.steady_frozen (misconfigured s reason)
  have hstarted : (started g c t l now).Has (Probe.Frozen (misconfigured s reason)) s.name :=
    has_started hI.mail (h ▸ Probe.frozen_unavailable s reason)
  obtain ⟨p, hp, hfrozen⟩ := has_after hI (hd ▸ hstarted) deeds
  exact ⟨p, hp, hfrozen.2⟩

/-! ### The law -/

structure Launched (g : Journal.Engine) (c : Config) (t : FileTree) (d : Daemon) : Prop where
  /-- The journal is opened if liveness lives on it, and only then. -/
  opened : d.files = if Provider.resolve .liveness (c.provider .liveness) = .ok .persistence then (c.journal g t).1 else t
  /-- The liveness probe runs on the journal exactly if that was opened. -/
  proving : ∃ p, d.probe? .liveness = some p ∧
    ∀ journal, p.journal? = some journal ↔ c.Persists ∧ (c.journal g t).2 = .ok journal
  /-- No probe is built from what stands for a journal that is not needed, nor ever mentions it. -/
  unread : ¬c.Persists → ∀ s means journal now,
    Probe.build s (c.provider s) { means with journal := journal } now = Probe.build s (c.provider s) means now
  silent : ∀ deeds s, ∃ p, (d.after deeds).probe? s = some p ∧ p.hub.Says (·.Omits unwanted)
  misfit : ∀ s e, Provider.resolve s (c.provider s) = .error e → d.StaysDown s (misconfigured s e.message)
  missing : ∀ e, c.Persists → (c.journal g t).2 = .error e →
    d.StaysDown .liveness (misconfigured .liveness (journalMissing e))

theorem persists_of_resolve (h : Provider.resolve s (c.provider s) = .ok .persistence) : s = .liveness ∧ c.Persists := by
  obtain rfl := Provider.signal_of_persistence h
  exact ⟨rfl, h⟩

theorem journal?_built : (Probe.build .liveness (c.provider .liveness) (means g c t l) now).journal? =
    if Provider.resolve .liveness (c.provider .liveness) = .ok .persistence then (c.journal g t).2.toOption else none := by
  rw [Probe.journal?_build]
  split
  · next hpersists => rw [means, openJournal_of_persists hpersists]
  · rfl

/-- No failure to open a journal reads like the one that stands for a journal that is not needed. -/
theorem not_unopened_unwanted : ¬Journal.Unopened unwanted := by
  generalize hunwanted : unwanted = e
  intro h
  cases h with
  | @parents e hnumbered =>
    have hdetail := congrArg JournalError.detail hunwanted
    cases e with
    | other text => exact hnumbered text rfl
    | _ => exact absurd hdetail (by decide)
  | file hcapital =>
    obtain ⟨first, hfirst, hupper⟩ := hcapital
    obtain rfl := congrArg JournalError.detail hunwanted
    obtain rfl : 'n' = first := Option.some.inj hfirst
    exact absurd hupper (by decide)
  | tables hkind => exact hkind (congrArg JournalError.kind hunwanted).symm

theorem built_omits (hg : g.Speaks) (s : Signal) :
    (Probe.build s (c.provider s) (means g c t l) now).Says (·.Omits unwanted) := by
  refine Probe.build_omits fun e hresolve he => ?_
  obtain ⟨rfl, hpersists⟩ := persists_of_resolve hresolve
  rw [means, openJournal_of_persists hpersists] at he
  have hopen : Journal.openFile g t (.ofString c.persistence.path) = ((c.journal g t).1, .error e) := Prod.ext rfl he
  have hunopened := Journal.openFile_error hg hopen
  rintro rfl
  exact not_unopened_unwanted hunopened

theorem launched (hg : g.Speaks) (hd : d.assembly = started g c t l now) : Launched g c t d where
  opened := by
    rw [files, hd, files_started]
    split
    · next hpersists => rw [openJournal_of_persists hpersists]
    · next hnot => rw [openJournal_of_not hnot]
  proving := by
    have hstarted : (started g c t l now).Has (·.journal? = _) Signal.liveness.name :=
      has_started (fun _ h => h) journal?_built
    obtain ⟨p, hp, hjournal⟩ := hstarted
    refine ⟨p, (congrArg (Assembly.probe? · _) hd).trans hp, fun journal => ?_⟩
    rw [hjournal]
    split
    · next hpersists =>
      cases hopen : (c.journal g t).2 with
      | ok j =>
        exact ⟨fun h => ⟨hpersists, congrArg Except.ok (Option.some.inj h)⟩, fun h => congrArg some (Except.ok.inj h.2)⟩
      | error e => exact ⟨fun h => by simp [Except.toOption] at h, fun h => by simp at h⟩
    · next hnot => exact ⟨fun h => by simp at h, fun h => absurd h.1 hnot⟩
  unread := fun hnot s means journal now => Probe.build_journal (fun h => hnot (persists_of_resolve h).2) journal
  silent := fun deeds s => by
    have hI := Probe.steady_omits unwanted
    obtain ⟨p, hp, hsays, -⟩ := has_after hI (hd ▸ has_started hI.mail (built_omits hg s)) deeds
    exact ⟨p, hp, hsays⟩
  misfit := fun s e h => staysDown_of_unavailable hd (Probe.build_misfit h)
  missing := fun e hpersists he =>
    staysDown_of_unavailable hd (Probe.build_missing hpersists (by rw [means, openJournal_of_persists hpersists, he]))

end Daemon
end HealthSignal
