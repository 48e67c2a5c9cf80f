import HealthSignal.Assembly
import HealthSignal.Proofs.Probe.Delivery
import HealthSignal.Proofs.Sync.Account
import Mathlib.Data.List.Nodup

/-! The runs of a component among the probes that they follow, step by step. -/
namespace HealthSignal

theorem newsOf_concat (key : String) (news : List Update) (u : Update) :
    newsOf key (news ++ [u]) =
      if key = u.key then newsOf key news ++ [u.status] else newsOf key news := by
  by_cases hk : key = u.key
  · simp [newsOf, hk]
  · simp [newsOf, hk, Ne.symm hk]

def statusesOf (key : String) (news : List Update) : List Status := (newsOf key news).filterMap id

theorem statusesOf_concat (key : String) (news : List Update) (u : Update) :
    statusesOf key (news ++ [u]) =
      if key = u.key then statusesOf key news ++ u.status.toList else statusesOf key news := by
  unfold statusesOf
  rw [newsOf_concat]
  by_cases hk : key = u.key
  · cases hs : u.status <;> simp [hk]
  · simp [hk]

theorem statusesOf_eq_filterMap {key : String} {news : List Update} (h : ∀ u ∈ news, u.key = key) :
    statusesOf key news = news.filterMap (·.status) := by
  have hall : news.filter (·.key = key) = news :=
    List.filter_eq_self.mpr fun u hu => decide_eq_true (h u hu)
  rw [statusesOf, newsOf, hall, List.filterMap_map]
  rfl

namespace Assembly
variable {s s' : Assembly} {taken : List SubscriberId} {key : String} {p q : Probe}

theorem probe?_modifyProbe (s : Assembly) (key : String) (f : Probe → Probe) (k : String) :
    (s.modifyProbe key f).probe? k = if k = key then (s.probe? k).map f else s.probe? k :=
  lookup_modify s.probes key f k

theorem alive_iff : s.alive key = true ↔ ∃ p, s.probe? key = some p ∧ p.running = true := by
  simp [alive, Option.any_eq_true]

theorem dead_of_stopped (hp : s.probe? key = some p) (hr : p.running = false) : s.alive key = false := by
  simp [alive, hp, hr]

structure Evolves (taken : List SubscriberId) (s s' : Assembly) : Prop where
  nextId : s.nextId ≤ s'.nextId
  probe? : ∀ key p, s.probe? key = some p → ∃ q, s'.probe? key = some q ∧ p.Becomes taken q
  absent : ∀ key, s.probe? key = none → s'.probe? key = none

theorem Evolves.of_probes (hn : s.nextId ≤ s'.nextId) (hp : s'.probes = s.probes) : s.Evolves taken s' := by
  have hs : ∀ key, s'.probe? key = s.probe? key := fun key => by rw [Assembly.probe?, Assembly.probe?, hp]
  exact ⟨hn, fun key p h => ⟨p, (hs key).trans h, .refl p taken⟩, fun key h => (hs key).trans h⟩

theorem Evolves.trans {s'' : Assembly} (h : s.Evolves taken s') (h' : s'.Evolves taken s'') :
    s.Evolves taken s'' where
  nextId := h.nextId.trans h'.nextId
  probe? := fun key p hp => by
    obtain ⟨q, hq, hpq⟩ := h.probe? key p hp
    obtain ⟨r, hr, hqr⟩ := h'.probe? key q hq
    exact ⟨r, hr, hpq.trans hqr⟩
  absent := fun key hp => h'.absent key (h.absent key hp)

theorem Evolves.mono {taken' : List SubscriberId} (h : s.Evolves taken s') (hsub : taken ⊆ taken') :
    s.Evolves taken' s' :=
  { h with
    probe? := fun key p hp => by
      obtain ⟨q, hq, hb⟩ := h.probe? key p hp
      exact ⟨q, hq, hb.mono hsub⟩ }

theorem Evolves.exists_probe? (h : s.Evolves taken s') (hq : s'.probe? key = some q) :
    ∃ p, s.probe? key = some p ∧ p.Becomes taken q := by
  cases hp : s.probe? key with
  | none => simp [h.absent key hp] at hq
  | some p =>
    obtain ⟨q', hq', hb⟩ := h.probe? key p hp
    obtain rfl := Option.some.inj (hq.symm.trans hq')
    exact ⟨p, rfl, hb⟩

theorem Evolves.alive (h : s.Evolves taken s') (ha : s'.alive key = true) : s.alive key = true := by
  obtain ⟨q, hq, hr⟩ := alive_iff.mp ha
  obtain ⟨p, hp, hb⟩ := h.exists_probe? hq
  exact alive_iff.mpr ⟨p, hp, hb.running hr⟩

theorem Evolves.dead (h : s.Evolves taken s') (hd : s.alive key = false) : s'.alive key = false := by
  rw [← Bool.not_eq_true] at hd ⊢
  exact fun ha => hd (h.alive ha)

theorem Evolves.modifyProbe {f : Probe → Probe} (h : ∀ p, s.probe? key = some p → p.Becomes taken (f p)) :
    s.Evolves taken (s.modifyProbe key f) where
  nextId := Nat.le_refl _
  probe? := fun k p hp => by
    rw [probe?_modifyProbe]
    by_cases hk : k = key
    · subst hk
      exact ⟨f p, by simp [hp], h p hp⟩
    · exact ⟨p, by simp [hk, hp], .refl p taken⟩
  absent := fun k hp => by
    rw [probe?_modifyProbe, hp]
    simp

theorem Evolves.release (s : Assembly) (subs : List Subscription) :
    s.Evolves (subs.map (·.id)) (s.release subs) := by
  induction subs generalizing s with
  | nil => exact .of_probes (Nat.le_refl _) rfl
  | cons sub rest ih =>
    have hfirst : s.Evolves [sub.id] (s.modifyProbe sub.key fun p =>
        { p with hub := (p.hub.lose sub.id).settle }) := .modifyProbe fun p _ => .release p sub.id
    exact (hfirst.mono (by simp)).trans ((ih _).mono (by simp))

def deliverAll (sync : Sync) (key : String) (statuses : List Status) : Sync :=
  statuses.foldl (fun k st => k.deliver ⟨key, some st⟩) sync

theorem forward_of_running {sub : Subscription} (hp : s.probe? sub.key = some p) (hr : p.running = true)
    (sync : Sync) : s.forward sync sub =
      (deliverAll sync sub.key ((p.hub.received sub.id).drop sub.seen),
        some { sub with seen := (p.hub.received sub.id).length }) := by
  rw [forward, hp]
  exact if_pos hr

theorem forward_of_stopped {sub : Subscription} (hp : s.probe? sub.key = some p) (hr : p.running = false)
    (sync : Sync) : s.forward sync sub =
      ((deliverAll sync sub.key ((p.hub.received sub.id).drop sub.seen)).deliver ⟨sub.key, none⟩, none) := by
  rw [forward, hp]
  exact if_neg (by simp [hr])

def attach (s : Assembly) (key : String) : Assembly :=
  { s.modifyProbe key fun p => { p with hub := p.hub.subscribe s.nextId } with nextId := s.nextId + 1 }

theorem probe?_attach (h : s.probe? key = some p) :
    (s.attach key).probe? key = some { p with hub := p.hub.subscribe s.nextId } := by
  have hmodify := probe?_modifyProbe s key (fun p => { p with hub := p.hub.subscribe s.nextId }) key
  rw [if_pos rfl, h] at hmodify
  exact hmodify

theorem Evolves.attach (s : Assembly) (key : String) : s.Evolves [] (s.attach key) :=
  (modifyProbe fun p _ => .subscribe p s.nextId).trans (.of_probes (Nat.le_succ _) rfl)

def Fresh (s : Assembly) : Prop := ∀ key p, s.probe? key = some p → ∀ id ∈ p.hub.gone, id < s.nextId

theorem Fresh.of_forall (h : ∀ entry ∈ s.probes, ∀ id ∈ entry.2.hub.gone, id < s.nextId) : s.Fresh := by
  intro key p hp
  obtain ⟨before, after, hprobes, -⟩ := List.lookup_eq_some_iff.mp hp
  exact h (key, p) (by simp [hprobes])

theorem Fresh.evolves (h : s.Fresh) (he : s.Evolves taken s') (ht : ∀ id ∈ taken, id < s.nextId) :
    s'.Fresh := by
  intro key q hq id hid
  obtain ⟨p, hp, hb⟩ := he.exists_probe? hq
  refine Nat.lt_of_lt_of_le ?_ he.nextId
  by_cases hmem : id ∈ taken
  · exact ht id hmem
  · exact h key p hp id (hb.there id hmem hid)

end Assembly

structure Episode where
  /-- Probes that did not take the run on yet. -/
  awaited : List String
  /-- The subscriptions so far, by their probes. -/
  made : List (String × SubscriberId)
  transcript : Transcript

namespace Episode

def start (s : Assembly) (keys : List String) : Episode :=
  ⟨keys.filter s.alive, [], ⟨(s.dead keys).map (⟨·, none⟩), [], none⟩⟩

def hear (e : Episode) (u : Update) : Episode := { e with transcript := e.transcript.hear u }

def settle (e : Episode) (key : String) : Episode := { e with awaited := e.awaited.filter (· ≠ key) }

structure Delivered (s : Assembly) (keys : List String) (e : Episode) : Prop where
  known : ∀ u ∈ e.transcript.heard, u.key ∈ keys
  distinct : (e.made.map (·.1)).Nodup
  made : ∀ x ∈ e.made, x.1 ∈ keys
  statuses : ∀ key, statusesOf key e.transcript.heard = [] ∨ ∃ id p, (key, id) ∈ e.made ∧
    s.probe? key = some p ∧ statusesOf key e.transcript.heard <+: p.hub.received id

/-- A run that listens waits for each of its probes, is subscribed to it, or knows that it has ended. -/
structure Attends (s : Assembly) (keys : List String) (subs : List Subscription) (e : Episode) : Prop where
  distinct : (subs.map (·.key)).Nodup
  made : ∀ sub ∈ subs, (sub.key, sub.id) ∈ e.made
  current : ∀ sub ∈ subs, ∃ p, s.probe? sub.key = some p ∧ sub.seen ≤ (p.hub.received sub.id).length ∧
    newsOf sub.key e.transcript.heard = ((p.hub.received sub.id).take sub.seen).map some ∧
    (p.running = true → p.hub.Holds sub.id)
  every : ∀ key ∈ keys, key ∈ e.awaited ∨ (∃ sub ∈ subs, sub.key = key) ∨
    none ∈ newsOf key e.transcript.heard ∧ s.alive key = false

def Awaits (keys : List String) (e : Episode) : Prop := ∀ key ∈ e.awaited,
  key ∈ keys ∧ newsOf key e.transcript.heard = [] ∧ key ∉ e.made.map (·.1)

variable {s s' : Assembly} {keys : List String} {subs : List Subscription} {e : Episode}
  {taken : List SubscriberId}

theorem Delivered.evolve (h : e.Delivered s keys) (he : s.Evolves taken s') : e.Delivered s' keys :=
  { h with
    statuses := fun key => by
      obtain hnil | ⟨id, p, hmade, hp, hpre⟩ := h.statuses key
      · exact Or.inl hnil
      · obtain ⟨q, hq, hb⟩ := he.probe? key p hp
        exact Or.inr ⟨id, q, hmade, hq, hpre.trans (hb.received id)⟩ }

theorem Attends.evolve (h : e.Attends s keys subs) (he : s.Evolves taken s')
    (hfree : ∀ sub ∈ subs, sub.id ∉ taken) : e.Attends s' keys subs :=
  { h with
    current := fun sub hsub => by
      obtain ⟨p, hp, hle, hnews, hholds⟩ := h.current sub hsub
      obtain ⟨q, hq, hb⟩ := he.probe? _ p hp
      obtain ⟨rest, hrest⟩ := hb.received sub.id
      refine ⟨q, hq, hle.trans (hb.received sub.id).length_le, ?_, fun hr => ?_⟩
      · rw [hnews, ← hrest, List.take_append_of_le_length hle]
      · exact hb.holds sub.id (hfree sub hsub) hr (hholds (hb.running hr))
    every := fun key hkey => by
      exact (h.every key hkey).imp_right (Or.imp_right fun ⟨hnews, ha⟩ => ⟨hnews, he.dead ha⟩) }

theorem Delivered.hear (h : e.Delivered s keys) {u : Update} (hu : u.key ∈ keys)
    (hs : u.status = none ∨ ∃ id p, (u.key, id) ∈ e.made ∧ s.probe? u.key = some p ∧
      statusesOf u.key e.transcript.heard ++ u.status.toList <+: p.hub.received id) :
    (e.hear u).Delivered s keys where
  known := fun v hv => by
    obtain hv | hv := List.mem_append.mp hv
    · exact h.known v hv
    · rwa [List.mem_singleton.mp hv]
  distinct := h.distinct
  made := h.made
  statuses := fun key => by
    have hconcat := statusesOf_concat key e.transcript.heard u
    by_cases hk : key = u.key
    · subst hk
      rw [if_pos rfl] at hconcat
      obtain hnone | ⟨id, p, hmade, hp, hpre⟩ := hs
      · rw [hnone, Option.toList_none, List.append_nil] at hconcat
        simpa only [Episode.hear, Transcript.hear, hconcat] using h.statuses u.key
      · exact Or.inr ⟨id, p, hmade, hp, hconcat ▸ hpre⟩
    · rw [if_neg hk] at hconcat
      simpa only [Episode.hear, Transcript.hear, hconcat] using h.statuses key

theorem Awaits.hear (h : e.Awaits keys) {u : Update} (hu : u.key ∉ e.awaited) : (e.hear u).Awaits keys := by
  intro key hkey
  obtain ⟨hmem, hnews, hmade⟩ := h key hkey
  refine ⟨hmem, ?_, hmade⟩
  have hne : key ≠ u.key := fun heq => hu (heq ▸ hkey)
  exact (newsOf_concat key e.transcript.heard u).trans ((if_neg hne).trans hnews)

theorem Awaits.settle (h : e.Awaits keys) (key : String) : (e.settle key).Awaits keys :=
  fun k hk => h k (List.mem_of_mem_filter hk)

theorem not_mem_settle (e : Episode) (key : String) : key ∉ (e.settle key).awaited := by
  simp [Episode.settle]

theorem Delivered.start (s : Assembly) (keys : List String) : (start s keys).Delivered s keys where
  known := fun u hu => by
    obtain ⟨key, hkey, rfl⟩ := List.mem_map.mp hu
    exact List.mem_of_mem_filter hkey
  distinct := .nil
  made := by simp [Episode.start]
  statuses := fun key => Or.inl (by simp [Episode.start, statusesOf, newsOf, List.filter_map])

theorem Awaits.start (s : Assembly) (keys : List String) : (start s keys).Awaits keys := by
  intro key hkey
  obtain ⟨hmem, ha⟩ := List.mem_filter.mp hkey
  refine ⟨hmem, ?_, by simp [Episode.start]⟩
  rw [newsOf, List.map_eq_nil_iff, List.filter_eq_nil_iff]
  rintro u hu
  obtain ⟨k, hk, rfl⟩ := List.mem_map.mp hu
  obtain ⟨-, hdead⟩ := List.mem_filter.mp hk
  simp only [decide_eq_true_eq]
  rintro rfl
  simp [ha] at hdead

theorem Attends.start (s : Assembly) (keys : List String) : (start s keys).Attends s keys [] where
  distinct := .nil
  made := by simp
  current := by simp
  every := fun key hkey => by
    cases ha : s.alive key with
    | true => exact Or.inl (List.mem_filter.mpr ⟨hkey, ha⟩)
    | false =>
      have hdead : key ∈ s.dead keys := List.mem_filter.mpr ⟨hkey, by simp [ha]⟩
      refine Or.inr (Or.inr ⟨?_, rfl⟩)
      refine List.mem_map.mpr ⟨⟨key, none⟩, List.mem_filter.mpr ⟨?_, by simp⟩, rfl⟩
      exact List.mem_map_of_mem hdead

end Episode
end HealthSignal
