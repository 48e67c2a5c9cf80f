import HealthSignal.Proofs.Journal.Ledger
import HealthSignal.Proofs.RoundTrip.Event

/-! What a worker finds in a journal whose records it has to itself. No answer of the journal makes it
report a loss, and its own calls leave the records that the next worker must find. -/
namespace HealthSignal.RoundTrip
open Journal (Ledger)

variable {id : String} {j : Journal} {es ss : List Record}

/-- Every expected record is there: the entry itself, and a snapshot not below the expected one. -/
structure Expectation.Met (e : Expectation) (es ss : List Record) : Prop where
  journal : ∀ n, e.journal = some n → ∃ r ∈ es, r.seq = n
  snapshot : ∀ n, e.snapshot = some n → ∃ r ∈ ss, n ≤ r.seq

theorem Expectation.Met.append {e : Expectation} (h : e.Met es ss) (r : Record) :
    e.Met (es ++ [r]) ss where
  journal n hn :=
    let ⟨x, hx, hxn⟩ := h.journal n hn
    ⟨x, List.mem_append_left _ hx, hxn⟩
  snapshot := h.snapshot

theorem Expectation.Met.save {e : Expectation} (h : e.Met es ss) (r : Record) :
    e.Met es (ss ++ [r]) where
  journal := h.journal
  snapshot n hn :=
    let ⟨x, hx, hxn⟩ := h.snapshot n hn
    ⟨x, List.mem_append_left _ hx, hxn⟩

/-- What may be recovered of snapshots: a failure of the store, or a number that none exceeds. -/
def Recovered (ss : List Record) : Except Failure Nat → Prop
  | .error f => ∃ e, f = .store e
  | .ok n => ∀ r ∈ ss, r.seq ≤ n

def Stage.Sound (es ss : List Record) : Stage → Prop
  | .loading => True
  | .replaying recovered => Recovered ss recovered
  | .appending recovered seq =>
    Recovered ss recovered ∧ (∀ r ∈ es, r.seq < seq) ∧ ∀ n, recovered = .ok n → n < seq
  | .saving seq => (∃ r ∈ es, r.seq = seq) ∧ ∀ r ∈ ss, r.seq < seq
  | .pruning _ => False

def Report.Lossless (r : Report) : Prop :=
  ∀ seq, r.journal ≠ some (.error (.lost seq)) ∧ r.snapshot ≠ some (.error (.lost seq))

def Call.seq? : Call → Option Nat
  | .load | .replay => none
  | .append seq _ | .save seq _ | .prune seq => some seq

namespace Worker

def Progress.Sound (expect : Expectation) (es ss : List Record) : Progress → Prop
  | .ask stage => stage.Sound es ss
  | .report r next => r.Lossless ∧ (expect.update r).Met es ss ∧
    ∀ stage, next = some stage → ∃ seq, stage = .pruning seq ∧ r = .success seq
  | .exit => False

theorem recoverSnapshot_load (h : Ledger id j es ss) {expect : Expectation}
    (he : expect.Met es ss) :
    ∃ n, recoverSnapshot expect.snapshot ((j.load id).map (·.map Record.seq)) = .ok n ∧
      Recovered ss (.ok n) := by
  rw [h.load]
  cases hl : ss.getLast? with
  | none =>
    obtain rfl := List.getLast?_eq_none_iff.mp hl
    have hnone : expect.snapshot = none := by
      cases hs : expect.snapshot with
      | none => rfl
      | some n =>
        obtain ⟨r, hr, _⟩ := he.snapshot n hs
        cases hr
    exact ⟨0, by simp [hnone, Except.map, recoverSnapshot], by simp [Recovered]⟩
  | some last =>
    refine ⟨last.seq, ?_, h.snapshots.le_last hl⟩
    cases hs : expect.snapshot with
    | none => rfl
    | some n =>
      obtain ⟨r, hr, hn⟩ := he.snapshot n hs
      have := Nat.le_trans hn (h.snapshots.le_last hl r hr)
      simp [Except.map, recoverSnapshot, Nat.not_lt.mpr this]

theorem recoverEntries_replay (h : Ledger id j es ss) {expect : Expectation}
    (he : expect.Met es ss) :
    ∃ n, recoverEntries expect.journal ((j.replay id).map (·.map Record.seq)) = .ok n ∧
      ∀ r ∈ es, r.seq ≤ n := by
  have hfound : expect.journal.filter (!(es.map Record.seq).contains ·) = none := by
    cases hs : expect.journal with
    | none => rfl
    | some n =>
      obtain ⟨r, hr, rfl⟩ := he.journal n hs
      have : (es.map Record.seq).contains r.seq = true :=
        List.contains_iff_mem.mpr (List.mem_map_of_mem hr)
      simp only [Option.filter_some, this, Bool.not_true, Bool.false_eq_true, if_false]
  rw [h.replay]
  refine ⟨(es.map Record.seq).getLast?.getD 0, ?_, fun r hr => ?_⟩
  · simp only [Except.map, recoverEntries, hfound]
  · cases hl : es.getLast? with
    | none => simp_all
    | some last => simpa [List.getLast?_map, hl] using h.entries.le_last hl r hr

theorem resumeAt_replaying {attempt : Nat} {expect : Expectation} {marker : String}
    {recovered : Except Failure Nat} {answer : Except JournalError (List Nat)} {n : Nat}
    (h : recoverEntries expect.journal answer = .ok n) :
    resumeAt attempt expect marker (.replaying recovered) answer =
      .ask (.appending recovered (nextSeq n recovered)) := by
  simp only [resumeAt, h]

theorem lt_nextSeq (highest : Nat) (recovered : Except Failure Nat) :
    highest < nextSeq highest recovered ∧ ∀ n, recovered = .ok n → n < nextSeq highest recovered := by
  refine ⟨?_, fun n hn => ?_⟩
  · simp only [nextSeq]
    omega
  · subst hn
    simp only [nextSeq, Except.toOption, Option.getD_some]
    omega

def answered (w : Worker) (stamp : Nat) (j : Journal) : Except JournalError w.call.Answer :=
  (w.call.perform w.id stamp j).1

def performed (w : Worker) (stamp : Nat) (j : Journal) : Journal :=
  (w.call.perform w.id stamp j).2

section Stages
variable (attempt : Nat) {seq stamp : Nat} {expect : Expectation}

/-- The latest snapshot is recovered, whatever number was expected. -/
theorem resume_loading (stamp : Nat) (h : Ledger id j es ss) (he : expect.Met es ss) :
    ∃ n, Recovered ss (.ok n) ∧
      resume ⟨id, attempt, expect, .loading⟩ (answered _ stamp j) = .ask (.replaying (.ok n)) := by
  obtain ⟨n, hn, hr⟩ := recoverSnapshot_load h he
  exact ⟨n, hr, congrArg (fun x => Progress.ask (.replaying x)) hn⟩

/-- The expected entry is found, and the next number is above all. -/
theorem resume_replaying (stamp : Nat) (recovered : Except Failure Nat) (h : Ledger id j es ss)
    (he : expect.Met es ss) :
    ∃ seq, (∀ r ∈ es, r.seq < seq) ∧ (∀ n, recovered = .ok n → n < seq) ∧
      resume ⟨id, attempt, expect, .replaying recovered⟩ (answered _ stamp j) =
        .ask (.appending recovered seq) := by
  obtain ⟨n, hn, hr⟩ := recoverEntries_replay h he
  obtain ⟨hlt, hrec⟩ := lt_nextSeq n recovered
  exact ⟨nextSeq n recovered, fun r hm => Nat.lt_of_le_of_lt (hr r hm) hlt, hrec,
    resumeAt_replaying hn⟩

/-- A marker above all entries is taken. -/
theorem perform_appending (expect : Expectation) (recovered : Except Failure Nat)
    (h : Ledger id j es ss) (hid : id ≠ "") (habove : ∀ r ∈ es, r.seq < seq)
    (hseq : seq < UInt64.size) (hstamp : stamp < UInt64.size) :
    let w : Worker := ⟨id, attempt, expect, .appending recovered seq⟩
    w.answered stamp j = .ok () ∧
      Ledger id (w.performed stamp j) (es ++ [⟨id, seq, w.marker, stamp⟩]) ss := by
  intro w
  have happend := h.append_eq hid habove stamp w.marker
  have hperform : w.call.perform w.id stamp j =
      (.ok (), j.put .entry id seq (Record.toJson .entry ⟨id, seq, w.marker, stamp⟩)) := by
    simp only [w, call, callOf, Call.perform, happend]
  refine ⟨congrArg Prod.fst hperform, ?_⟩
  rw [performed, hperform]
  exact h.append hstamp hseq habove w.marker

theorem perform_saving (expect : Expectation) (h : Ledger id j es ss) (hid : id ≠ "")
    (habove : ∀ r ∈ ss, r.seq < seq) (hseq : seq < UInt64.size) (hstamp : stamp < UInt64.size) :
    let w : Worker := ⟨id, attempt, expect, .saving seq⟩
    w.answered stamp j = .ok () ∧
      Ledger id (w.performed stamp j) es (ss ++ [⟨id, seq, w.marker, stamp⟩]) := by
  intro w
  have hsave := Journal.save_eq hid j stamp seq w.marker
  have hperform : w.call.perform w.id stamp j =
      (.ok (), j.put .snapshot id seq (Record.toJson .snapshot ⟨id, seq, w.marker, stamp⟩)) := by
    simp only [w, call, callOf, Call.perform, hsave]
  refine ⟨congrArg Prod.fst hperform, ?_⟩
  rw [performed, hperform, ← Record.place_above habove]
  exact h.save hstamp hseq w.marker

end Stages

theorem Recovered.outcome_ne_lost {recovered : Except Failure Nat} (h : Recovered ss recovered)
    (seq : Nat) : some (outcome recovered) ≠ some (.error (.lost seq)) := by
  cases recovered with
  | ok n => simp [outcome, Except.map]
  | error f =>
    obtain ⟨e, rfl⟩ := h
    simp [outcome, Except.map]

theorem sound_finish_error (attempt : Nat) {seq : Nat} {expect : Expectation} {f : Failure}
    (hf : ∀ n, f ≠ .lost n) (hr : ∃ r ∈ es, r.seq = seq) :
    (finish attempt seq (.error f)).Sound expect es ss := by
  refine ⟨fun n => ⟨by simp, by simpa using hf n⟩, ⟨?_, by simp [Expectation.update, Expectation.after]⟩,
    by simp⟩
  rintro n hn
  obtain rfl : seq = n := by simpa [Expectation.update, Expectation.after] using hn
  exact hr

theorem sound_finish_ok (attempt : Nat) {seq : Nat} {expect : Expectation}
    (hr : ∃ r ∈ es, r.seq = seq) (hs : ∃ r ∈ ss, seq ≤ r.seq) :
    (finish attempt seq (.ok ())).Sound expect es ss := by
  refine ⟨fun n => by simp, ⟨?_, ?_⟩, fun stage hstage => ?_⟩
  · rintro n hn
    obtain rfl : seq = n := by simpa [Expectation.update, Expectation.after] using hn
    exact hr
  · rintro n hn
    obtain rfl : seq = n := by simpa [Expectation.update, Expectation.after] using hn
    exact hs
  · by_cases hattempt : attempt > 1
    · simp only [hattempt, if_true, Option.some.injEq] at hstage
      exact ⟨seq, hstage.symm, rfl⟩
    · simp [hattempt] at hstage

theorem resume_fails {w : Worker} (hs : w.stage.Sound es ss) (he : w.expect.Met es ss)
    (e : JournalError) : (w.resume (.error e)).Sound w.expect es ss := by
  obtain ⟨wid, attempt, expect, stage⟩ := w
  cases stage with
  | loading => exact ⟨e, rfl⟩
  | replaying recovered =>
    refine ⟨fun n => ⟨by simp, Recovered.outcome_ne_lost hs n⟩, ?_, by simp⟩
    cases recovered <;> exact ⟨by simp [Expectation.update, Expectation.after],
      by simp [Expectation.update, Expectation.after, outcome, Except.map]⟩
  | appending recovered seq =>
    obtain ⟨hrec, -, -⟩ := hs
    cases recovered with
    | ok n =>
      exact ⟨fun n => by simp, ⟨by simp [Expectation.update, Expectation.after], he.snapshot⟩, by simp⟩
    | error f =>
      obtain ⟨e', rfl⟩ := hrec
      exact ⟨fun n => by simp, ⟨by simp [Expectation.update, Expectation.after],
        by simp [Expectation.update, Expectation.after]⟩, by simp⟩
  | saving seq => exact sound_finish_error attempt (by simp) hs.1
  | pruning seq => exact hs.elim

/-- A worker whose call reaches the journal reports no loss either. -/
theorem resume_works {w : Worker} (hid : w.id ≠ "") (h : Ledger w.id j es ss)
    (hs : w.stage.Sound es ss) (he : w.expect.Met es ss) {stamp : Nat}
    (hstamp : stamp < UInt64.size) (hseq : ∀ seq, w.call.seq? = some seq → seq < UInt64.size) :
    ∃ es' ss', Ledger w.id (w.performed stamp j) es' ss' ∧ w.expect.Met es' ss' ∧
      (w.resume (w.answered stamp j)).Sound w.expect es' ss' := by
  obtain ⟨wid, attempt, expect, stage⟩ := w
  cases stage with
  | loading =>
    obtain ⟨n, hn, hw⟩ := resume_loading attempt stamp h he
    exact ⟨es, ss, h, he, by rw [hw]; exact hn⟩
  | replaying recovered =>
    obtain ⟨seq, habove, hrec, hw⟩ := resume_replaying attempt stamp recovered h he
    exact ⟨es, ss, h, he, by rw [hw]; exact ⟨hs, habove, hrec⟩⟩
  | appending recovered seq =>
    obtain ⟨hrec, habove, hlt⟩ := hs
    obtain ⟨hok, hledger⟩ := perform_appending attempt expect recovered h hid habove (hseq seq rfl) hstamp
    refine ⟨_, ss, hledger, he.append _, ?_⟩
    rw [hok]
    cases recovered with
    | ok n => exact ⟨by simp, fun r hr => Nat.lt_of_le_of_lt (hrec r hr) (hlt n rfl)⟩
    | error f =>
      obtain ⟨e, rfl⟩ := hrec
      exact sound_finish_error attempt (by simp) (by simp)
  | saving seq =>
    obtain ⟨hmarker, habove⟩ := hs
    obtain ⟨hok, hledger⟩ := perform_saving attempt expect h hid habove (hseq seq rfl) hstamp
    refine ⟨es, _, hledger, he.save _, ?_⟩
    rw [hok]
    exact sound_finish_ok attempt hmarker ⟨_, List.mem_append_right _ List.mem_cons_self, Nat.le_refl _⟩
  | pruning seq => exact hs.elim

end Worker
end HealthSignal.RoundTrip
