import HealthSignal.Proofs.Journal.Opening
import HealthSignal.Proofs.Probe.Steady

/-! The probe that a provider text stands for, and what it says. -/
namespace HealthSignal

def misconfigured (s : Signal) (reason : String) : Status :=
  .bad ("misconfigured " ++ s.name ++ " probe: " ++ reason)

def journalMissing (e : JournalError) : String := "journal could not be opened: " ++ e.message

theorem initial_misconfigured (s : Signal) (reason : String) : (misconfigured s reason).initial = some 'm' := by
  simp [Status.initial, misconfigured, Status.bad]

theorem misconfigured_inj {s s' : Signal} {reason reason' : String}
    (h : misconfigured s reason = misconfigured s' reason') : s = s' ∧ reason = reason' := by
  have hmessage : "misconfigured " ++ s.name ++ " probe: " ++ reason =
      "misconfigured " ++ s'.name ++ " probe: " ++ reason' := congrArg Status.message h
  have hlist := congrArg String.toList hmessage
  cases s <;> cases s' <;> simp [Signal.name, String.toList_append] at hlist
  · exact ⟨rfl, String.toList_inj.mp hlist⟩
  · exact ⟨rfl, String.toList_inj.mp hlist⟩

/-- No other kind of failure begins as the opening of a journal does. -/
theorem journalMissing_inj {e : JournalError} {detail : String}
    (h : journalMissing e = journalMissing ⟨.opening, detail⟩) : e = ⟨.opening, detail⟩ := by
  obtain ⟨kind, detail'⟩ := e
  have hmessage : kind.text ++ detail' = JournalError.Kind.opening.text ++ detail := (String.append_right_inj _).mp h
  have hkind : kind = .opening := by
    have hhead := congrArg (·.toList.head?) hmessage
    cases kind <;> simp [JournalError.Kind.text] at hhead ⊢
  subst hkind
  rw [(String.append_right_inj _).mp hmessage]

theorem head_journalMissing (e : JournalError) : (journalMissing e).toList.head? = some 'j' := by
  unfold journalMissing
  generalize e.message = text
  simp

def Status.Omits (st : Status) (e : JournalError) : Prop := ∀ s, st ≠ misconfigured s (journalMissing e)

theorem Status.omits_of_initial {st : Status} (h : st.initial ≠ some 'm') (e : JournalError) : st.Omits e :=
  fun s heq => h (heq ▸ initial_misconfigured s _)

/-! ### Providers -/

namespace Provider
variable {s : Signal} {text : String} {e : ConfigError}

/-- No text stands for journal round trips that serve readiness. -/
theorem signal_of_persistence (h : resolve s text = .ok .persistence) : s = .liveness := by
  unfold resolve at h
  cases s with
  | liveness => rfl
  | readiness =>
    cases hname : ofName? text with
    | none => simp [hname] at h
    | some provider => cases provider <;> simp [hname] at h

theorem resolve_error (h : resolve s text = .error e) :
    e = .unknownProvider s text ∨ ∃ name, e = .unsupportedProvider s name := by
  unfold resolve at h
  cases hname : ofName? text with
  | none => exact Or.inl (by simpa [hname] using h.symm)
  | some provider =>
    cases provider with
    | default | cluster => simp [hname] at h
    | persistence =>
      cases s with
      | liveness => simp [hname] at h
      | readiness =>
        rw [hname] at h
        exact Or.inr ⟨_, (Except.error.inj h).symm⟩

theorem reason_ne_journalMissing (h : resolve s text = .error e) (missing : JournalError) :
    e.message ≠ journalMissing missing := by
  intro heq
  have hhead := head_journalMissing missing
  rw [← heq] at hhead
  unfold ConfigError.message at hhead
  obtain rfl | ⟨name, rfl⟩ := resolve_error h
  · simp at hhead
  · simp at hhead

end Provider

namespace Probe
variable {s : Signal} {text : String} {means : Means} {now : Nat}

inductive Built (s : Signal) (text : String) (means : Means) (now : Nat) : Probe → Prop
  | misfit {e : ConfigError} : Provider.resolve s text = .error e → Built s text means now (unavailable s e.message)
  | manual : Provider.resolve s text = .ok .default →
    Built s text means now (manual "default" s (.good (s.name ++ " reported by default provider")))
  | cluster {watch : ClusterWatch} (name : String) : Provider.resolve s text = .ok .cluster →
    Built s text means now (start name s watch.status (.cluster watch))
  | persistence {journal : Journal} : Provider.resolve s text = .ok .persistence → means.journal = .ok journal →
    Built s text means now (persistence means.settings journal .none now)
  | missing {e : JournalError} : Provider.resolve s text = .ok .persistence → means.journal = .error e →
    Built s text means now (unavailable s (journalMissing e))

theorem frozen_unavailable (s : Signal) (reason : String) :
    (unavailable s reason).Frozen (misconfigured s reason) :=
  ⟨rfl, Hub.says_new rfl⟩

theorem build_misfit {e : ConfigError} (h : Provider.resolve s text = .error e) :
    build s text means now = unavailable s e.message := by
  unfold build
  rw [h]

theorem build_missing {e : JournalError} (h : Provider.resolve s text = .ok .persistence)
    (he : means.journal = .error e) : build s text means now = unavailable s (journalMissing e) := by
  unfold build
  rw [h]
  simp only [he]
  rfl

theorem built (s : Signal) (text : String) (means : Means) (now : Nat) :
    Built s text means now (build s text means now) := by
  unfold build
  cases hresolve : Provider.resolve s text with
  | error e => exact .misfit hresolve
  | ok provider =>
    cases provider with
    | default => exact .manual hresolve
    | cluster =>
      cases s with
      | liveness => exact .cluster "cluster-liveness" hresolve
      | readiness => exact .cluster "cluster-readiness" hresolve
    | persistence =>
      cases hjournal : means.journal with
      | ok journal => exact .persistence hresolve hjournal
      | error e => exact .missing hresolve hjournal

/-- A probe that does not live on the journal does not look at it. -/
theorem build_journal (h : Provider.resolve s text ≠ .ok .persistence) (journal : Except JournalError Journal) :
    build s text { means with journal := journal } now = build s text means now := by
  unfold build
  cases hresolve : Provider.resolve s text with
  | error e => rfl
  | ok provider =>
    cases provider with
    | default => rfl
    | cluster => cases s <;> rfl
    | persistence => exact absurd hresolve h

def journal? (p : Probe) : Option Journal :=
  match p.source with
  | .persistence session => some session.journal
  | _ => none

theorem journal?_persistence (settings : RoundTrip.Settings) (journal : Journal) (faults : RoundTrip.Faults)
    (now : Nat) : (persistence settings journal faults now).journal? = some journal := by
  rw [journal?, source_persistence]
  exact congrArg some (RoundTrip.Session.journal_issue _ now)

theorem journal?_build : (build s text means now).journal? =
    if Provider.resolve s text = .ok .persistence then means.journal.toOption else none := by
  have hb := built s text means now
  generalize build s text means now = p at hb
  cases hb with
  | misfit hresolve | manual hresolve | cluster _ hresolve => simp [hresolve, journal?, unavailable, manual, start]
  | persistence hresolve hjournal => rw [if_pos hresolve, hjournal, journal?_persistence]; rfl
  | missing hresolve hjournal => rw [if_pos hresolve, hjournal]; rfl

/-- Nothing is handed in to a probe that is being built. -/
theorem waiting_build : (build s text means now).source.waiting = [] := by
  have hb := built s text means now
  generalize build s text means now = p at hb
  cases hb with
  | misfit | manual | cluster | missing => rfl
  | persistence => rw [source_persistence]; rfl

/-- Only an error that is why the journal is missing is ever reported. -/
theorem steady_omits (unwanted : JournalError) : Steady (Says (·.Omits unwanted)) :=
  steady_says (fun st h => st.omits_of_initial (by simp [h]) unwanted) fun st h =>
    st.omits_of_initial (by simp [h]) unwanted

theorem build_omits {detail : String} (h : ∀ e, Provider.resolve s text = .ok .persistence →
    means.journal = .error e → e ≠ ⟨.opening, detail⟩) :
    (build s text means now).Says (·.Omits ⟨.opening, detail⟩) := by
  refine ⟨?_, by simp [waiting_build]⟩
  have hb := built s text means now
  generalize build s text means now = p at hb
  cases hb with
  | @misfit e hresolve =>
    exact Hub.says_new fun s' heq => Provider.reason_ne_journalMissing hresolve _ (misconfigured_inj heq).2
  | manual =>
    refine Hub.says_new (Status.omits_of_initial ?_ _)
    cases s <;> decide
  | @cluster watch =>
    exact Hub.says_new (watch.status.omits_of_initial (by simp [ClusterWatch.initial_status]) _)
  | persistence =>
    rw [hub_persistence]
    refine (Hub.says_new (Status.omits_of_initial (by decide) _)).follow fun st hst => ?_
    exact st.omits_of_initial (by simp [RoundTrip.Machine.initial_dispatch hst]) _
  | @missing e hresolve hjournal =>
    have hne := h e hresolve hjournal
    exact Hub.says_new fun s' heq => hne (journalMissing_inj (misconfigured_inj heq).2)

end Probe
end HealthSignal
