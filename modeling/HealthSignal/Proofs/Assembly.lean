import HealthSignal.Proofs.Probe.Steady
import HealthSignal.Proofs.Sync.Episode

/-! What is steady of one probe stays true of it among other probes and components. -/
namespace HealthSignal.Assembly

variable {I : Probe → Prop} {s : Assembly} {key : String}

def Has (I : Probe → Prop) (key : String) (s : Assembly) : Prop := ∃ p, s.probe? key = some p ∧ I p

theorem Has.of_probes {s' : Assembly} (h : s.Has I key) (hp : s'.probes = s.probes) : s'.Has I key := by
  obtain ⟨p, hprobe, hI⟩ := h
  exact ⟨p, by rwa [probe?, hp], hI⟩

theorem Has.modifyProbe {f : Probe → Probe} (h : s.Has I key) (hf : ∀ p, I p → I (f p)) (k : String) :
    (s.modifyProbe k f).Has I key := by
  obtain ⟨p, hprobe, hI⟩ := h
  rw [Has, probe?_modifyProbe, hprobe]
  by_cases hk : key = k
  · exact ⟨f p, by rw [if_pos hk]; rfl, hf p hI⟩
  · exact ⟨p, if_neg hk, hI⟩

section Mail
variable (hI : KeptByMail I)
include hI

theorem Has.release (h : s.Has I key) (subs : List Subscription) : (s.release subs).Has I key := by
  induction subs generalizing s with
  | nil => exact h
  | cons sub subs ih =>
    exact ih (h.modifyProbe (fun p hp => hI .notices (hI (.loss sub.id) hp)) sub.key)

theorem Has.attach (h : s.Has I key) (k : String) : (s.attach k).Has I key :=
  (h.modifyProbe (fun _ hp => hI (.subscribe s.nextId) hp) k).of_probes rfl

theorem Has.subscribeAll (h : s.Has I key) (keys : List String) : (s.subscribeAll keys).1.Has I key :=
  List.foldlRecOn (motive := fun x : Assembly × List Subscription => x.1.Has I key) _ _ h
    fun _ hx k _ => hx.attach hI k

theorem Has.refresh (h : s.Has I key) (c : Carrier) : (s.refresh c).1.Has I key := by
  unfold Assembly.refresh
  split
  · exact h
  · exact h.release hI c.subscriptions

theorem Has.refreshAll (h : s.Has I key) : s.refreshAll.Has I key := by
  refine Has.of_probes ?_ rfl
  exact List.foldlRecOn (motive := fun x : Assembly × List Carrier => x.1.Has I key) s.carriers _ h
    fun _ hx c _ => hx.refresh hI c

theorem Has.addSync (h : s.Has I key) (signal : Signal) (keys : List String) (aggregated : Bool) (limit : Duration)
    (transport : Transport) (strategy : Strategy) (now : Nat) :
    (s.addSync signal keys aggregated limit transport strategy now).Has I key :=
  Has.refreshAll hI ((h.subscribeAll hI keys).of_probes rfl)

theorem Has.actCarrier (h : s.Has I key) (now : Nat) (c : Carrier) : (s.actCarrier now c).1.Has I key := by
  unfold Assembly.actCarrier
  generalize c.sync.act (s.dead c.sync.keys) s.surroundings now = acted
  have h' : Has I key { s with surroundings := acted.2 } := h.of_probes rfl
  dsimp only
  split
  · exact h'.subscribeAll hI c.sync.keys
  · exact h'

theorem Has.command {f : Probe → Except ProbeError Probe} (h : s.Has I key)
    (hf : ∀ p q, I p → f p = .ok q → I q) (k : String) : (s.command k f).1.Has I key := by
  unfold Assembly.command
  split
  · exact h
  · next p hk =>
    split
    · next q hq =>
      refine Has.refreshAll hI ?_
      obtain ⟨p', hprobe, hI'⟩ := h
      rw [Has, probe?_modifyProbe, hprobe]
      by_cases hkey : key = k
      · subst hkey
        obtain rfl := Option.some.inj (hk.symm.trans hprobe)
        exact ⟨q, by rw [if_pos rfl]; rfl, hf p q hI' hq⟩
      · exact ⟨p', if_neg hkey, hI'⟩
    · exact h

theorem Has.mail (h : s.Has I key) (m : Mail) (k : String) : (s.command k (·.command m.deliver)).1.Has I key :=
  h.command hI (fun _ _ hp hq => (Probe.command_eq_ok hq).2 ▸ hI m hp) k

end Mail

section Life
variable (hI : Steady I)
include hI

theorem Has.act (h : s.Has I key) (now : Nat) : (s.act now).Has I key := by
  unfold Assembly.act
  split
  · next k p _ => exact (h.modifyProbe (fun _ hp => hI.act s.feed now hp) k).refreshAll hI.mail
  · split
    · next before c after _ => exact Has.refreshAll hI.mail ((h.actCarrier hI.mail now c).of_probes rfl)
    · exact h

theorem Has.advance (h : s.Has I key) (now horizon : Nat) : (s.advance now horizon).Has I key := by
  unfold Assembly.advance
  generalize Timeline.steps _ _ now horizon = fuel
  induction fuel generalizing s now with
  | zero => exact h
  | succ fuel ih =>
    unfold Timeline.run
    split
    · split
      · exact ih (h.act hI _) _
      · exact h
    · exact h

theorem Has.stopProbe (h : s.Has I key) (k : String) : (s.stopProbe k).Has I key :=
  (h.modifyProbe (fun _ hp => hI.stop hp) k).refreshAll hI.mail

end Life

/-! ### Adding a component changes nothing around it -/

theorem surroundings_release (s : Assembly) (subs : List Subscription) :
    (s.release subs).surroundings = s.surroundings :=
  List.foldlRecOn (motive := fun x : Assembly => x.surroundings = s.surroundings) subs _ rfl fun _ hx _ _ => hx

theorem surroundings_subscribeAll (s : Assembly) (keys : List String) :
    (s.subscribeAll keys).1.surroundings = s.surroundings :=
  List.foldlRecOn (motive := fun x : Assembly × List Subscription => x.1.surroundings = s.surroundings) _ _ rfl
    fun _ hx _ _ => hx

theorem surroundings_refresh (s : Assembly) (c : Carrier) : (s.refresh c).1.surroundings = s.surroundings := by
  unfold Assembly.refresh
  split
  · rfl
  · exact surroundings_release s c.subscriptions

theorem surroundings_refreshAll (s : Assembly) : s.refreshAll.surroundings = s.surroundings :=
  List.foldlRecOn (motive := fun x : Assembly × List Carrier => x.1.surroundings = s.surroundings) s.carriers _ rfl
    fun x hx c _ => (surroundings_refresh x.1 c).trans hx

theorem surroundings_addSync (s : Assembly) (signal : Signal) (keys : List String) (aggregated : Bool)
    (limit : Duration) (transport : Transport) (strategy : Strategy) (now : Nat) :
    (s.addSync signal keys aggregated limit transport strategy now).surroundings = s.surroundings :=
  (surroundings_refreshAll _).trans (surroundings_subscribeAll s keys)

end HealthSignal.Assembly
