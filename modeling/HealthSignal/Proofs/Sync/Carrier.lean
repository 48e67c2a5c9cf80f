import HealthSignal.Proofs.Sync.Episode

/-! What a component may do among its probes, and what every step of it keeps. -/
namespace HealthSignal

namespace Carrier

/-- The next step of a component. Those of its probes that are there take it on in any order, and their news
arrive in any order that keeps those of one probe in theirs. Between calls it may overlook a request to shut
down while there is something else to do. -/
inductive Step (now : Nat) (s : Assembly) (c : Carrier) (e : Episode) (older : List Episode) :
    Assembly → Carrier → Episode → List Episode → Prop
  | attach (key : String) : c.sync.run.listening = true → key ∈ e.awaited → s.alive key = true →
    Step now s c e older (s.attach key) ⟨c.sync, c.subscriptions ++ [⟨key, s.nextId, 0⟩]⟩
      { e.settle key with made := (key, s.nextId) :: e.made } older
  | miss (key : String) : c.sync.run.listening = true → key ∈ e.awaited → s.alive key = false →
    Step now s c e older s ⟨c.sync.deliver ⟨key, none⟩, c.subscriptions⟩
      ((e.settle key).hear ⟨key, none⟩) older
  | forward (before : List Subscription) {after : List Subscription} {sub : Subscription} {p : Probe}
    {st : Status} : c.sync.run.listening = true → c.subscriptions = before ++ sub :: after →
    s.probe? sub.key = some p → (p.hub.received sub.id)[sub.seen]? = some st →
    Step now s c e older s
      ⟨c.sync.deliver ⟨sub.key, some st⟩, before ++ { sub with seen := sub.seen + 1 } :: after⟩
      (e.hear ⟨sub.key, some st⟩) older
  | finish (before : List Subscription) {after : List Subscription} {sub : Subscription} {p : Probe} :
    c.sync.run.listening = true → c.subscriptions = before ++ sub :: after →
    s.probe? sub.key = some p → p.running = false → (p.hub.received sub.id).length ≤ sub.seen →
    Step now s c e older s ⟨c.sync.deliver ⟨sub.key, none⟩, before ++ after⟩
      (e.hear ⟨sub.key, none⟩) older
  | proceed (shutdown : Bool) : c.sync.running = true →
    (shutdown = true → c.sync.supervisor.shutdown = true) → c.sync.run.ready shutdown = true →
    Step now s c e older s
      ⟨c.sync.follow now (c.sync.run.next c.sync.limit.timer now shutdown), c.subscriptions⟩
      { e with transcript := e.transcript.call (c.sync.run.next c.sync.limit.timer now shutdown).2 } older
  | resolve {d : Nat} {sync : Sync} {w : Surroundings} {r : Relay.Result} : c.sync.running = true →
    c.sync.run.deadline?.isSome = true → c.sync.due = some d → d ≤ now →
    c.sync.outcome s.surroundings = (sync, w, r) →
    Step now s c e older { s with surroundings := w }
      ⟨sync.follow now (sync.run.resolve sync.limit.timer now r), c.subscriptions⟩
      { e with transcript := (e.transcript.answer r).call (sync.run.resolve sync.limit.timer now r).2 } older
  | restart {resume : Nat} : c.sync.supervisor.phase = .waiting resume → resume ≤ now →
    Step now s c e older s
      ⟨{ c.sync with
          supervisor := c.sync.supervisor.resume now
          run := Sync.freshRun c.sync.keys c.sync.aggregated (s.dead c.sync.keys) }, []⟩
      (.start s c.sync.keys) (e :: older)
  | release : c.sync.run.listening = false →
    Step now s c e older (s.release c.subscriptions) ⟨c.sync, []⟩ e older
  | shutdown : Step now s c e older s ⟨c.sync.requestShutdown, c.subscriptions⟩ e older

variable {now : Nat} {s s' : Assembly} {c c' : Carrier} {e e' : Episode} {older older' : List Episode}

/-- A step takes no subscriptions away but its own. -/
theorem Step.evolves (h : Step now s c e older s' c' e' older') :
    s.Evolves (c.subscriptions.map (·.id)) s' := by
  cases h with
  | attach => exact (Assembly.Evolves.attach s _).mono (List.nil_subset _)
  | release => exact .release s c.subscriptions
  | _ => exact .of_probes (Nat.le_refl _) rfl

theorem Step.id_of_mem (h : Step now s c e older s' c' e' older') :
    ∀ x ∈ c'.subscriptions, x.id ∈ c.subscriptions.map (·.id) ∨ x.id = s.nextId ∧ s'.nextId = s.nextId + 1 := by
  intro x hx
  cases h with
  | attach =>
    obtain hx | hx := List.mem_append.mp hx
    · exact Or.inl (List.mem_map_of_mem hx)
    · rw [List.mem_singleton.mp hx]
      exact Or.inr ⟨rfl, rfl⟩
  | @forward before after sub _ _ _ hsubs =>
    rw [hsubs]
    refine Or.inl ?_
    obtain hx | hx := List.mem_append.mp hx
    · simpa using Or.inl ⟨x, hx, rfl⟩
    · obtain rfl | hx := List.mem_cons.mp hx
      · simp
      · simpa using Or.inr (Or.inr ⟨x, hx, rfl⟩)
  | @finish before after sub _ _ hsubs =>
    rw [hsubs]
    refine Or.inl ?_
    obtain hx | hx := List.mem_append.mp hx
    · simpa using Or.inl ⟨x, hx, rfl⟩
    · simpa using Or.inr (Or.inr ⟨x, hx, rfl⟩)
  | restart | release => simp at hx
  | miss | proceed | resolve | shutdown => exact Or.inl (List.mem_map_of_mem hx)

structure Keeps (s : Assembly) (c : Carrier) (e : Episode) (older : List Episode) : Prop where
  distinct : c.sync.keys.Nodup
  single : c.sync.aggregated = false → ∃ key, c.sync.keys = [key]
  accounts : c.sync.Accounts e.transcript (older.map (·.transcript))
  delivered : ∀ e' ∈ e :: older, e'.Delivered s c.sync.keys
  awaits : e.Awaits c.sync.keys
  known : ∀ sub ∈ c.subscriptions, sub.id < s.nextId
  attends : c.sync.run.listening = true → e.Attends s c.sync.keys c.subscriptions

theorem Keeps.evolve {taken : List SubscriberId} (h : c.Keeps s e older) (he : s.Evolves taken s')
    (hfree : ∀ sub ∈ c.subscriptions, sub.id ∉ taken) : c.Keeps s' e older :=
  { h with
    delivered := fun e' he' => (h.delivered e' he').evolve he
    known := fun sub hsub => Nat.lt_of_lt_of_le (h.known sub hsub) he.nextId
    attends := fun hl => (h.attends hl).evolve he hfree }

theorem key_ne_of_nodup {before after : List Subscription} {sub : Subscription}
    (h : ((before ++ sub :: after).map (·.key)).Nodup) {x : Subscription}
    (hx : x ∈ before ∨ x ∈ after) : x.key ≠ sub.key := by
  rw [List.map_append, List.map_cons, List.nodup_middle, List.nodup_cons] at h
  intro heq
  refine h.1 ?_
  rw [← heq, ← List.map_append]
  exact List.mem_map_of_mem (List.mem_append.mpr hx)

theorem newsOf_hear_ne (e : Episode) {u : Update} {key : String} (h : key ≠ u.key) :
    newsOf key (e.hear u).transcript.heard = newsOf key e.transcript.heard :=
  (newsOf_concat key e.transcript.heard u).trans (if_neg h)

theorem newsOf_hear_self (e : Episode) (u : Update) :
    newsOf u.key (e.hear u).transcript.heard = newsOf u.key e.transcript.heard ++ [u.status] :=
  (newsOf_concat u.key e.transcript.heard u).trans (if_pos rfl)

theorem mem_newsOf_hear (e : Episode) (u : Update) {key : String}
    (h : none ∈ newsOf key e.transcript.heard) : none ∈ newsOf key (e.hear u).transcript.heard := by
  by_cases hk : key = u.key
  · subst hk
    rw [newsOf_hear_self]
    exact List.mem_append_left _ h
  · rwa [newsOf_hear_ne e hk]

theorem attends_forward {keys : List String} {before after : List Subscription} {sub : Subscription}
    {p : Probe} {st : Status} (h : e.Attends s keys (before ++ sub :: after))
    (hp : s.probe? sub.key = some p) (hst : (p.hub.received sub.id)[sub.seen]? = some st) :
    (e.hear ⟨sub.key, some st⟩).Attends s keys
      (before ++ { sub with seen := sub.seen + 1 } :: after) where
  distinct := by simpa using h.distinct
  made := fun x hx => by
    obtain hx | hx := List.mem_append.mp hx
    · exact h.made x (by simp [hx])
    · obtain rfl | hx := List.mem_cons.mp hx
      · exact h.made sub (by simp)
      · exact h.made x (by simp [hx])
  current := by
    have hrest : ∀ x, x ∈ before ∨ x ∈ after → ∃ p, s.probe? x.key = some p ∧
        x.seen ≤ (p.hub.received x.id).length ∧
        newsOf x.key (e.hear ⟨sub.key, some st⟩).transcript.heard =
          ((p.hub.received x.id).take x.seen).map some ∧ (p.running = true → p.hub.Holds x.id) := by
      intro x hx
      rw [newsOf_hear_ne e (key_ne_of_nodup h.distinct hx)]
      refine h.current x ?_
      obtain hx | hx := hx <;> simp [hx]
    intro x hx
    obtain hx | hx := List.mem_append.mp hx
    · exact hrest x (Or.inl hx)
    · obtain rfl | hx := List.mem_cons.mp hx
      · obtain ⟨p', hp', -, hnews, hholds⟩ := h.current sub (by simp)
        obtain rfl := Option.some.inj (hp.symm.trans hp')
        refine ⟨p, hp, (List.getElem?_eq_some_iff.mp hst).1, ?_, hholds⟩
        rw [newsOf_hear_self e ⟨sub.key, some st⟩, hnews, List.take_add_one, hst]
        simp
      · exact hrest x (Or.inr hx)
  every := fun key hkey => by
    obtain ha | ⟨x, hx, hxk⟩ | ⟨hnone, hdead⟩ := h.every key hkey
    · exact Or.inl ha
    · refine Or.inr (Or.inl ?_)
      obtain hx | hx := List.mem_append.mp hx
      · exact ⟨x, by simp [hx], hxk⟩
      · obtain rfl | hx := List.mem_cons.mp hx
        · exact ⟨{ x with seen := x.seen + 1 }, by simp, hxk⟩
        · exact ⟨x, by simp [hx], hxk⟩
    · exact Or.inr (Or.inr ⟨mem_newsOf_hear e _ hnone, hdead⟩)

theorem attends_finish {keys : List String} {before after : List Subscription} {sub : Subscription}
    {p : Probe} (h : e.Attends s keys (before ++ sub :: after)) (hp : s.probe? sub.key = some p)
    (hr : p.running = false) : (e.hear ⟨sub.key, none⟩).Attends s keys (before ++ after) where
  distinct := by
    have hd := h.distinct
    rw [List.map_append, List.map_cons, List.nodup_middle, List.nodup_cons] at hd
    simpa using hd.2
  made := fun x hx => h.made x (by
    obtain hx | hx := List.mem_append.mp hx <;> simp [hx])
  current := fun x hx => by
    rw [newsOf_hear_ne e (key_ne_of_nodup h.distinct (List.mem_append.mp hx))]
    refine h.current x ?_
    obtain hx | hx := List.mem_append.mp hx <;> simp [hx]
  every := fun key hkey => by
    by_cases hk : key = sub.key
    · subst hk
      refine Or.inr (Or.inr ⟨?_, Assembly.dead_of_stopped hp hr⟩)
      rw [newsOf_hear_self e ⟨sub.key, none⟩]
      simp
    · obtain ha | ⟨x, hx, hxk⟩ | ⟨hnone, hdead⟩ := h.every key hkey
      · exact Or.inl ha
      · refine Or.inr (Or.inl ⟨x, ?_, hxk⟩)
        obtain hx | hx := List.mem_append.mp hx
        · exact List.mem_append_left _ hx
        · obtain rfl | hx := List.mem_cons.mp hx
          · exact absurd hxk.symm hk
          · exact List.mem_append_right _ hx
      · exact Or.inr (Or.inr ⟨mem_newsOf_hear e _ hnone, hdead⟩)

theorem attends_miss {keys : List String} {subs : List Subscription} {key : String}
    (h : e.Attends s keys subs) (haw : e.Awaits keys) (hkey : key ∈ e.awaited) (hdead : s.alive key = false) :
    ((e.settle key).hear ⟨key, none⟩).Attends s keys subs where
  distinct := h.distinct
  made := h.made
  current := fun x hx => by
    have hne : x.key ≠ key := by
      rintro rfl
      exact (haw x.key hkey).2.2 (List.mem_map_of_mem (h.made x hx))
    rw [newsOf_hear_ne (e.settle key) hne]
    exact h.current x hx
  every := fun k hk => by
    by_cases heq : k = key
    · subst heq
      refine Or.inr (Or.inr ⟨?_, hdead⟩)
      rw [newsOf_hear_self (e.settle k) ⟨k, none⟩]
      simp
    · obtain ha | hsub | ⟨hnone, hover⟩ := h.every k hk
      · exact Or.inl (List.mem_filter.mpr ⟨ha, by simpa using heq⟩)
      · exact Or.inr (Or.inl hsub)
      · exact Or.inr (Or.inr ⟨mem_newsOf_hear (e.settle key) _ hnone, hover⟩)

theorem attends_attach {keys : List String} {subs : List Subscription} {key : String}
    (h : e.Attends s keys subs) (hf : s.Fresh) (haw : e.Awaits keys) (hkey : key ∈ e.awaited)
    (ha : s.alive key = true) :
    Episode.Attends (s.attach key) keys (subs ++ [⟨key, s.nextId, 0⟩])
      { e.settle key with made := (key, s.nextId) :: e.made } := by
  have hold := h.evolve (.attach s key) (by simp)
  obtain ⟨-, hnews, hmade⟩ := haw key hkey
  refine ⟨?_, fun x hx => ?_, fun x hx => ?_, fun k hk => ?_⟩
  · rw [List.map_append, List.nodup_append]
    refine ⟨h.distinct, by simp, ?_⟩
    intro k hk k' hk'
    obtain rfl : k' = key := by simpa using hk'
    rintro rfl
    obtain ⟨x, hx, rfl⟩ := List.mem_map.mp hk
    exact hmade (List.mem_map_of_mem (h.made x hx))
  · obtain hx | hx := List.mem_append.mp hx
    · exact List.mem_cons_of_mem _ (h.made x hx)
    · rw [List.mem_singleton.mp hx]
      exact List.mem_cons_self
  · obtain hx | hx := List.mem_append.mp hx
    · exact hold.current x hx
    · rw [List.mem_singleton.mp hx]
      obtain ⟨p, hp, -⟩ := Assembly.alive_iff.mp ha
      refine ⟨_, Assembly.probe?_attach hp, Nat.zero_le _, hnews, fun _ => ?_⟩
      exact .subscribe_self fun hg => Nat.lt_irrefl _ (hf key p hp _ hg)
  · by_cases heq : k = key
    · exact Or.inr (Or.inl ⟨_, List.mem_append_right _ List.mem_cons_self, heq.symm⟩)
    · obtain ha | ⟨x, hx, hxk⟩ | hover := hold.every k hk
      · exact Or.inl (List.mem_filter.mpr ⟨ha, by simpa using heq⟩)
      · exact Or.inr (Or.inl ⟨x, List.mem_append_left _ hx, hxk⟩)
      · exact Or.inr (Or.inr hover)

theorem Keeps.hear (h : c.Keeps s e older) (hl : c.sync.run.listening = true) {u : Update}
    (ht : e'.transcript = e.transcript.hear u) (hd : e'.Delivered s c.sync.keys)
    (haw : e'.Awaits c.sync.keys) {subs : List Subscription} (hknown : ∀ sub ∈ subs, sub.id < s.nextId)
    (ha : e'.Attends s c.sync.keys subs) : Keeps s ⟨c.sync.deliver u, subs⟩ e' older := by
  have haccounts := h.accounts.deliver hl u
  rw [← ht] at haccounts
  rw [Sync.deliver_of_listening (h.accounts.running_of_listening hl) hl] at haccounts ⊢
  exact ⟨h.distinct, h.single, haccounts, List.forall_mem_cons.mpr ⟨hd, (List.forall_mem_cons.mp h.delivered).2⟩,
    haw, hknown, fun _ => ha⟩

theorem Keeps.follow (h : c.Keeps s e older) {sync : Sync} {t : Transcript}
    (hsync : sync.keys = c.sync.keys ∧ sync.aggregated = c.sync.aggregated)
    (ht : t.heard = e.transcript.heard) (ha : sync.Accounts t (older.map (·.transcript)))
    (hl : sync.run.listening = true → c.sync.run.listening = true) :
    Keeps s ⟨sync, c.subscriptions⟩ { e with transcript := t } older := by
  obtain ⟨hkeys, haggregated⟩ := hsync
  obtain ⟨hd, hpast⟩ := List.forall_mem_cons.mp h.delivered
  refine ⟨?_, ?_, ha, ?_, ?_, h.known, fun hlisten => ?_⟩
  · rw [hkeys]
    exact h.distinct
  · rw [hkeys, haggregated]
    exact h.single
  · rw [hkeys]
    refine List.forall_mem_cons.mpr ⟨⟨?_, hd.distinct, hd.made, ?_⟩, hpast⟩
    · rw [ht]
      exact hd.known
    · rw [ht]
      exact hd.statuses
  · unfold Episode.Awaits
    rw [hkeys, ht]
    exact h.awaits
  · obtain ⟨hdistinct, hmade, hcurrent, hevery⟩ := h.attends (hl hlisten)
    rw [hkeys]
    refine ⟨hdistinct, hmade, ?_, ?_⟩
    · rw [ht]
      exact hcurrent
    · rw [ht]
      exact hevery

theorem listening_of_resolve {m : Relay} {limit now : Nat} {r : Relay.Result}
    (h : (m.resolve limit now r).1.listening = true) : m.listening = true := by
  unfold Relay.resolve at h
  split at h
  · next ha => simp [Relay.listening, ha]
  · next ha => simp [Relay.listening, ha]
  · next ha => simp [Relay.listening, ha]
  · simp [Relay.listening] at h
  · simp [Relay.listening] at h
  · exact h

theorem Keeps.attach (h : c.Keeps s e older) (hf : s.Fresh) (hl : c.sync.run.listening = true) {key : String}
    (hkey : key ∈ e.awaited) (ha : s.alive key = true) :
    Keeps (s.attach key) ⟨c.sync, c.subscriptions ++ [⟨key, s.nextId, 0⟩]⟩
      { e.settle key with made := (key, s.nextId) :: e.made } older := by
  have he := Assembly.Evolves.attach s key
  obtain ⟨hd, hpast⟩ := List.forall_mem_cons.mp h.delivered
  obtain ⟨hmem, -, hnot⟩ := h.awaits key hkey
  have hd' := hd.evolve he
  refine ⟨h.distinct, h.single, h.accounts, ?_, ?_, ?_,
    fun _ => attends_attach (h.attends hl) hf h.awaits hkey ha⟩
  · refine List.forall_mem_cons.mpr ⟨⟨hd'.known, ?_, ?_, ?_⟩, fun e he' => (hpast e he').evolve he⟩
    · exact List.nodup_cons.mpr ⟨hnot, hd'.distinct⟩
    · exact List.forall_mem_cons.mpr ⟨hmem, hd'.made⟩
    · intro k
      obtain hnil | ⟨id, p, hmade, hp, hpre⟩ := hd'.statuses k
      · exact Or.inl hnil
      · exact Or.inr ⟨id, p, List.mem_cons_of_mem _ hmade, hp, hpre⟩
  · intro k hk
    obtain ⟨hkmem, hnews, hkmade⟩ := h.awaits.settle key k hk
    refine ⟨hkmem, hnews, ?_⟩
    rw [List.map_cons, List.mem_cons, not_or]
    refine ⟨?_, hkmade⟩
    rintro rfl
    exact e.not_mem_settle k hk
  · intro sub hsub
    obtain hsub | hsub := List.mem_append.mp hsub
    · exact Nat.lt_succ_of_lt (h.known sub hsub)
    · rw [List.mem_singleton.mp hsub]
      exact Nat.lt_succ_self _

/-- A probe that a run is subscribed to is not waited for. -/
theorem Keeps.not_awaited (h : c.Keeps s e older) {sub : Subscription} (hmade : (sub.key, sub.id) ∈ e.made) :
    sub.key ∉ e.awaited :=
  fun hkey => (h.awaits _ hkey).2.2 (List.mem_map_of_mem hmade)

theorem Keeps.forward (h : c.Keeps s e older) (hl : c.sync.run.listening = true)
    {before after : List Subscription} {sub : Subscription} {p : Probe} {st : Status}
    (hsubs : c.subscriptions = before ++ sub :: after) (hp : s.probe? sub.key = some p)
    (hst : (p.hub.received sub.id)[sub.seen]? = some st) :
    Keeps s ⟨c.sync.deliver ⟨sub.key, some st⟩, before ++ { sub with seen := sub.seen + 1 } :: after⟩
      (e.hear ⟨sub.key, some st⟩) older := by
  have hd := h.delivered e List.mem_cons_self
  have ha := h.attends hl
  have hknown := h.known
  rw [hsubs] at ha hknown
  obtain ⟨p', hp', -, hnews, -⟩ := ha.current sub (by simp)
  obtain rfl := Option.some.inj (hp.symm.trans hp')
  have hmade := ha.made sub (by simp)
  have hstatuses : statusesOf sub.key e.transcript.heard ++ [st] <+: p.hub.received sub.id := by
    have htake : (p.hub.received sub.id).take (sub.seen + 1) = (p.hub.received sub.id).take sub.seen ++ [st] := by
      rw [List.take_add_one, hst]
      rfl
    have hseen : statusesOf sub.key e.transcript.heard = (p.hub.received sub.id).take sub.seen := by
      rw [statusesOf, hnews]
      simp
    rw [hseen, ← htake]
    exact List.take_prefix ..
  refine h.hear hl rfl (hd.hear (hd.made _ hmade) (Or.inr ⟨_, _, hmade, hp, hstatuses⟩))
    (h.awaits.hear (h.not_awaited hmade)) ?_ (attends_forward ha hp hst)
  rw [List.forall_mem_append, List.forall_mem_cons] at hknown ⊢
  exact hknown

theorem Keeps.finish (h : c.Keeps s e older) (hl : c.sync.run.listening = true)
    {before after : List Subscription} {sub : Subscription} {p : Probe}
    (hsubs : c.subscriptions = before ++ sub :: after) (hp : s.probe? sub.key = some p)
    (hr : p.running = false) :
    Keeps s ⟨c.sync.deliver ⟨sub.key, none⟩, before ++ after⟩ (e.hear ⟨sub.key, none⟩) older := by
  have hd := h.delivered e List.mem_cons_self
  have ha := h.attends hl
  have hknown := h.known
  rw [hsubs] at ha hknown
  have hmade := ha.made sub (by simp)
  refine h.hear hl rfl (hd.hear (hd.made _ hmade) (Or.inl rfl)) (h.awaits.hear (h.not_awaited hmade)) ?_
    (attends_finish ha hp hr)
  rw [List.forall_mem_append, List.forall_mem_cons] at hknown
  exact List.forall_mem_append.mpr ⟨hknown.1, hknown.2.2⟩

theorem Keeps.step (h : c.Keeps s e older) (hf : s.Fresh) (hstep : Step now s c e older s' c' e' older') :
    c'.Keeps s' e' older' := by
  cases hstep with
  | attach key hl hkey ha => exact h.attach hf hl hkey ha
  | miss key hl hkey hdead =>
    have hd := h.delivered e List.mem_cons_self
    have hd' : (e.settle key).Delivered s c.sync.keys := ⟨hd.known, hd.distinct, hd.made, hd.statuses⟩
    exact h.hear hl rfl (hd'.hear (h.awaits key hkey).1 (Or.inl rfl))
      ((h.awaits.settle key).hear (e.not_mem_settle key)) h.known
      (attends_miss (h.attends hl) h.awaits hkey hdead)
  | forward _ hl hsubs hp hst => exact h.forward hl hsubs hp hst
  | finish _ hl hsubs hp hr _ => exact h.finish hl hsubs hp hr
  | proceed shutdown hr _ hready =>
    refine h.follow (Sync.follow_frame ..) rfl (h.accounts.proceed hr hready now) fun _ => ?_
    simp [Relay.listening, Relay.idle_of_ready hready]
  | @resolve _ sync w r hr hdead _ _ houtcome =>
    obtain ⟨transport, rfl⟩ := Sync.outcome_frame houtcome
    have hworld : s.Evolves [] { s with surroundings := w } := .of_probes (Nat.le_refl _) rfl
    refine (h.evolve hworld (by simp)).follow (Sync.follow_frame ..) rfl
      ((h.accounts.withTransport transport).resolve hr hdead now r) fun hl => ?_
    rw [Sync.run_follow] at hl
    exact listening_of_resolve hl
  | restart hphase _ =>
    exact ⟨h.distinct, h.single, h.accounts.restart hphase _ now,
      List.forall_mem_cons.mpr ⟨.start .., h.delivered⟩, Episode.Awaits.start s c.sync.keys, by simp,
      fun _ => .start ..⟩
  | release hl =>
    have he := Assembly.Evolves.release s c.subscriptions
    exact ⟨h.distinct, h.single, h.accounts, fun e he' => (h.delivered e he').evolve he, h.awaits, by simp,
      fun hl' => absurd (hl.symm.trans hl') Bool.false_ne_true⟩
  | shutdown => exact h.follow ⟨rfl, rfl⟩ rfl h.accounts.requestShutdown id

end Carrier
end HealthSignal
