import HealthSignal.Proofs.Sync.Aggregate
import Mathlib.Data.List.Chain

/-! What one run of a component hears and calls. Its calls follow the news in order; after one that fails, and at
the end of every run, there is only the last call. -/
namespace HealthSignal

structure Transcript where
  /-- The news that reached the run, oldest first. -/
  heard : List Update
  /-- The calls that are over, oldest first, with what came of them. -/
  done : List (Decision × Relay.Result)
  pending : Option Decision

namespace Transcript

def hear (t : Transcript) (u : Update) : Transcript := { t with heard := t.heard ++ [u] }

def call (t : Transcript) (d : Option Decision) : Transcript := { t with pending := d }

def answer (t : Transcript) (r : Relay.Result) : Transcript :=
  { t with done := t.done ++ t.pending.toList.map (·, r), pending := none }

def decisions (t : Transcript) : List Decision := t.done.map (·.1) ++ t.pending.toList

end Transcript

def Succeeded (x : Decision × Relay.Result) : Prop := x.2 = .answered (.ok ())

def SucceededBeforeLast (made : List (Decision × Relay.Result)) : Prop := ∀ x ∈ made.dropLast, Succeeded x

namespace Relay
variable {a₀ : Option Aggregate} {t : Transcript} {m : Relay} {limit now : Nat}

def heed (a : Option Aggregate) (u : Update) : Option Aggregate × Option Decision :=
  match a with
  | none => (none, u.status.map Status.decision)
  | some a => (some (a.hear u).1, (a.hear u).2)

def mirror (a : Option Aggregate) (news : List Update) : Option Aggregate × List Decision :=
  news.foldl (fun s u => ((heed s.1 u).1, s.2 ++ (heed s.1 u).2.toList)) (a, [])

theorem mirror_concat (a : Option Aggregate) (news : List Update) (u : Update) :
    mirror a (news ++ [u]) =
      ((heed (mirror a news).1 u).1, (mirror a news).2 ++ (heed (mirror a news).1 u).2.toList) := by
  simp [mirror]

theorem mirror_none (news : List Update) :
    mirror none news = (none, (news.filterMap (·.status)).map Status.decision) := by
  have hfold : ∀ ds, news.foldl (fun s u => ((heed s.1 u).1, s.2 ++ (heed s.1 u).2.toList)) (none, ds) =
      (none, ds ++ (news.filterMap (·.status)).map Status.decision) := by
    induction news with
    | nil => simp
    | cons u rest ih =>
      intro ds
      rw [List.foldl_cons]
      exact (ih _).trans (by cases hs : u.status <;> simp [heed, hs])
  exact hfold []

/-- A run that follows several probes knows what they come to, and calls up and down in turn. -/
theorem mirror_some (keys : List String) (news : List Update) :
    (mirror (some (.new keys)) news).1 = some (.ofNews keys news) ∧
      (Aggregate.ofNews keys news).shown = (mirror (some (.new keys)) news).2.getLast?.map Decision.isGo ∧
      (mirror (some (.new keys)) news).2.IsChain (fun x y => x.isGo ≠ y.isGo) := by
  have hfold : ∀ (a : Aggregate) (ds : List Decision), a.shown = ds.getLast?.map Decision.isGo →
      ds.IsChain (fun x y => x.isGo ≠ y.isGo) →
      let s := news.foldl (fun s u => ((heed s.1 u).1, s.2 ++ (heed s.1 u).2.toList)) (some a, ds)
      s.1 = some (news.foldl (fun a u => (a.hear u).1) a) ∧
        (news.foldl (fun a u => (a.hear u).1) a).shown = s.2.getLast?.map Decision.isGo ∧
        s.2.IsChain (fun x y => x.isGo ≠ y.isGo) := by
    induction news with
    | nil => exact fun a ds hlast hchain => ⟨rfl, hlast, hchain⟩
    | cons u rest ih =>
      intro a ds hlast hchain
      obtain ⟨hd, hshown⟩ | ⟨d, hd, hshown, hne⟩ := a.hear_decision u
      · simpa [heed, hd] using ih (a.hear u).1 ds (hshown.trans hlast) hchain
      · have hchain' : (ds ++ [d]).IsChain (fun x y => x.isGo ≠ y.isGo) := by
          refine List.isChain_append.mpr ⟨hchain, .singleton d, fun x hx y hy => ?_⟩
          obtain rfl : d = y := by simpa using hy
          rw [hlast, hx] at hne
          simpa using hne
        simpa [heed, hd] using ih (a.hear u).1 (ds ++ [d]) (by simp [hshown]) hchain'
  exact hfold (.new keys) [] rfl .nil

theorem take_cases (m : Relay) (limit now : Nat) (u : Update) :
    (∃ d, (heed m.aggregate u).2 = some d ∧
      m.take limit now u = place { m with aggregate := (heed m.aggregate u).1 } limit now d) ∨
    (heed m.aggregate u).2 = none ∧
      (m.take limit now u = close { m with aggregate := (heed m.aggregate u).1 } limit now .completed ∨
        m.aggregate ≠ none ∧ m.take limit now u = ({ m with aggregate := (heed m.aggregate u).1 }, none)) := by
  obtain ⟨queue, aggregate, activity⟩ := m
  obtain ⟨key, status⟩ := u
  cases aggregate with
  | none => cases status <;> simp [heed, take]
  | some a =>
    cases status with
    | none =>
      cases hd : (a.terminate key).2 with
      | none => by_cases he : exhausted ⟨queue, some (a.terminate key).1, activity⟩ = true <;>
          simp [heed, take, Aggregate.hear, hd, he]
      | some d => simp [heed, take, Aggregate.hear, hd]
    | some s =>
      cases hd : (a.report key s).2 with
      | none => by_cases he : exhausted ⟨queue, some (a.report key s).1, activity⟩ = true <;>
          simp [heed, take, Aggregate.hear, hd, he]
      | some d => simp [heed, take, Aggregate.hear, hd]

/-- The run took `taken` of what it heard and made all calls that follow, each with success so far. -/
structure Tracks (a₀ : Option Aggregate) (t : Transcript) (m : Relay) (taken : List Update) : Prop where
  heard : t.heard = taken ++ m.queue
  aggregate : m.aggregate = (mirror a₀ taken).1
  decisions : t.decisions = (mirror a₀ taken).2
  done : ∀ x ∈ t.done, Succeeded x
  /-- A run that follows a single probe goes on until the probe ends. -/
  statuses : a₀ = none → ∀ u ∈ taken, u.status ≠ none

/-- The calls `made` follow the first of the news, and only the last of them may have failed. -/
structure Mirrored (a₀ : Option Aggregate) (heard : List Update) (made : List (Decision × Result)) :
    Prop where
  calls : ∃ taken, taken <+: heard ∧ made.map (·.1) = (mirror a₀ taken).2
  done : SucceededBeforeLast made

def Complete (a₀ : Option Aggregate) (t : Transcript) : Prop :=
  t.pending = none ∧ ∃ made r, t.done = made ++ [(farewell, r)] ∧ Mirrored a₀ t.heard made

inductive Keeps (a₀ : Option Aggregate) (t : Transcript) (m : Relay) : Prop
  | idle (taken : List Update) : m.activity = .idle → t.pending = none → Tracks a₀ t m taken →
    Keeps a₀ t m
  | calling (taken : List Update) {deadline : Nat} {d : Decision} : m.activity = .calling deadline →
    t.pending = some d → Tracks a₀ t m taken → Keeps a₀ t m
  | closing {outcome : RelayEnd} {deadline : Nat} : m.activity = .closing outcome deadline →
    t.pending = some farewell → Mirrored a₀ t.heard t.done → Keeps a₀ t m
  | ended {outcome : RelayEnd} : m.activity = .ended outcome → Complete a₀ t → Keeps a₀ t m

theorem Keeps.start (a₀ : Option Aggregate) (queue : List Update) :
    Keeps a₀ ⟨queue, [], none⟩ (.start a₀ queue) :=
  .idle [] rfl rfl ⟨rfl, rfl, rfl, by simp, by simp⟩

theorem Keeps.hear (h : Keeps a₀ t m) (hl : m.listening = true) (u : Update) :
    Keeps a₀ (t.hear u) { m with queue := m.queue ++ [u] } := by
  have htracks : ∀ {taken}, Tracks a₀ t m taken →
      Tracks a₀ (t.hear u) { m with queue := m.queue ++ [u] } taken := fun ht =>
    { ht with heard := by simp [Transcript.hear, ht.heard] }
  cases h with
  | idle taken ha hp ht => exact .idle taken ha hp (htracks ht)
  | calling taken ha hp ht => exact .calling taken ha hp (htracks ht)
  | closing ha | ended ha => simp [listening, ha] at hl

theorem Tracks.mirrored {taken : List Update} (h : Tracks a₀ t m taken) (hp : t.pending = none) :
    Mirrored a₀ t.heard t.done where
  calls := ⟨taken, ⟨m.queue, h.heard.symm⟩, by simpa [Transcript.decisions, hp] using h.decisions⟩
  done := fun x hx => h.done x (List.dropLast_subset _ hx)

theorem Keeps.close {m : Relay} (h : Mirrored a₀ t.heard t.done) (limit now : Nat) (outcome : RelayEnd) :
    Keeps a₀ (t.call (m.close limit now outcome).2) (m.close limit now outcome).1 :=
  .closing rfl rfl h

theorem Tracks.take {taken : List Update} (h : Tracks a₀ t m taken) (hp : t.pending = none) {u : Update}
    {rest : List Update} (hq : m.queue = u :: rest) (limit now : Nat) :
    Keeps a₀ (t.call (take ⟨rest, m.aggregate, .idle⟩ limit now u).2)
      (take ⟨rest, m.aggregate, .idle⟩ limit now u).1 := by
  have hheard : t.heard = (taken ++ [u]) ++ rest := by simp [h.heard, hq]
  have hdone : t.done.map (·.1) = (mirror a₀ taken).2 := by
    simpa [Transcript.decisions, hp] using h.decisions
  have hmirror := mirror_concat a₀ taken u
  rw [← h.aggregate] at hmirror
  obtain ⟨d, hd, heq⟩ | ⟨hd, heq | ⟨hne, heq⟩⟩ := take_cases ⟨rest, m.aggregate, .idle⟩ limit now u
  all_goals rw [heq]
  · refine .calling (taken ++ [u]) rfl rfl ⟨hheard, by rw [hmirror]; rfl, ?_, h.done, ?_⟩
    · simp [Transcript.decisions, Transcript.call, place, hmirror, hd, hdone]
    · intro hnone v hv
      obtain hv | hv := List.mem_append.mp hv
      · exact h.statuses hnone v hv
      · obtain rfl := List.mem_singleton.mp hv
        intro hs
        simp [h.aggregate, hnone, mirror_none, heed, hs] at hd
  · refine .close ⟨⟨taken ++ [u], ⟨rest, hheard.symm⟩, ?_⟩, (h.mirrored hp).done⟩ ..
    simp [hmirror, hd, hdone]
  · refine .idle (taken ++ [u]) rfl rfl ⟨hheard, by rw [hmirror], ?_, h.done, ?_⟩
    · simp [Transcript.decisions, Transcript.call, hmirror, hd, hdone]
    · intro hnone
      simp [h.aggregate, hnone, mirror_none] at hne

theorem Keeps.next (h : Keeps a₀ t m) {shutdown : Bool} (hr : m.ready shutdown = true) (limit now : Nat) :
    Keeps a₀ (t.call (m.next limit now shutdown).2) (m.next limit now shutdown).1 := by
  have hidle : m.activity = .idle := by
    simp only [ready, Bool.and_eq_true, beq_iff_eq] at hr
    exact hr.1
  cases h with
  | idle taken ha hp ht =>
    unfold Relay.next
    rw [ha]
    cases shutdown with
    | true => exact .close (ht.mirrored hp) ..
    | false =>
      cases hq : m.queue with
      | nil =>
        have he : m.exhausted = true := by simpa [ready, ha, hq] using hr
        simp only [he, if_true]
        exact .close (ht.mirrored hp) ..
      | cons u rest => exact ht.take hp hq limit now
  | calling _ ha | closing ha | ended ha => simp [hidle] at ha

theorem Keeps.resolve (h : Keeps a₀ t m) (hd : m.deadline?.isSome = true) (limit now : Nat) (r : Result) :
    Keeps a₀ ((t.answer r).call (m.resolve limit now r).2) (m.resolve limit now r).1 := by
  cases h with
  | idle _ ha | ended ha => simp [deadline?, ha] at hd
  | @calling taken deadline d ha hp ht =>
    have hanswer : (t.answer r).done = t.done ++ [(d, r)] := by simp [Transcript.answer, hp]
    have hmirrored : Mirrored a₀ (t.answer r).heard (t.answer r).done := by
      rw [hanswer]
      refine ⟨⟨taken, ⟨m.queue, ht.heard.symm⟩, ?_⟩, by simpa [SucceededBeforeLast] using ht.done⟩
      simpa [Transcript.decisions, hp] using ht.decisions
    unfold Relay.resolve
    rw [ha]
    cases r with
    | panicked => exact .close hmirrored ..
    | answered r =>
      cases r with
      | error e => exact .close hmirrored ..
      | ok =>
        cases he : m.exhausted with
        | true => exact .close hmirrored ..
        | false =>
          refine .idle taken rfl rfl ⟨ht.heard, ht.aggregate, ?_, ?_, ht.statuses⟩
          · simpa [Transcript.decisions, Transcript.call, hanswer, hp] using ht.decisions
          · intro x hx
            have hx : x ∈ (t.answer (.answered (.ok ()))).done := hx
            rw [hanswer] at hx
            obtain hx | hx := List.mem_append.mp hx
            · exact ht.done x hx
            · rw [List.mem_singleton.mp hx]
              rfl
  | @closing outcome deadline ha hp hm =>
    have hanswer : (t.answer r).done = t.done ++ [(farewell, r)] := by simp [Transcript.answer, hp]
    unfold Relay.resolve
    rw [ha]
    cases r <;> exact .ended rfl ⟨rfl, _, _, hanswer, hm⟩

end Relay
end HealthSignal
