import HealthSignal.Proofs.Journal.Call
import Mathlib.Data.Nat.Count

/-! The reference model of one id: a map of entries and a map of snapshots. A journal answers under the id as the
maps do, as long as the other ids are unrelated to it. -/
namespace HealthSignal

abbrev Payloads := Nat → Option String

namespace Payloads

def none : Payloads := fun _ => .none

def put (m : Payloads) (seq : Nat) (payload : String) : Payloads := Function.update m seq (some payload)

def cut (m : Payloads) (b : Nat) : Payloads := fun seq => if seq < b then .none else m seq

def countBelow (m : Payloads) (b : Nat) : Nat := Nat.count (fun seq => (m seq).isSome) b

structure Highest (m : Payloads) (top : Nat) : Prop where
  there : (m top).isSome
  le : ∀ seq, (m seq).isSome → seq ≤ top

structure Listed (id : String) (m : Payloads) (rs : List Record) : Prop where
  ascending : rs.Pairwise fun a b => a.seq < b.seq
  id_eq : ∀ r ∈ rs, r.id = id
  holds : ∀ seq payload, m seq = some payload ↔ ∃ r ∈ rs, r.seq = seq ∧ r.payload = payload

namespace Listed
variable {id : String} {m : Payloads} {rs : List Record}

theorem empty : Listed id none [] := ⟨List.Pairwise.nil, by simp, by simp [none]⟩

theorem isSome_iff (h : Listed id m rs) (seq : Nat) : (m seq).isSome ↔ ∃ r ∈ rs, r.seq = seq := by
  rw [Option.isSome_iff_exists]
  constructor
  · rintro ⟨payload, hp⟩
    obtain ⟨r, hr, hseq, -⟩ := (h.holds seq payload).mp hp
    exact ⟨r, hr, hseq⟩
  · rintro ⟨r, hr, hseq⟩
    exact ⟨r.payload, (h.holds seq r.payload).mpr ⟨r, hr, hseq, rfl⟩⟩

theorem above (h : Listed id m rs) {seq : Nat} (habove : ∀ r ∈ rs, r.seq < seq) :
    ∀ s, (m s).isSome → s < seq := by
  intro s hs
  obtain ⟨r, hr, rfl⟩ := (h.isSome_iff s).mp hs
  exact habove r hr

theorem eq_none (h : Listed id m rs) (hrs : rs.getLast? = .none) (seq : Nat) : m seq = .none := by
  obtain rfl := List.getLast?_eq_none_iff.mp hrs
  rw [← Option.not_isSome_iff_eq_none, h.isSome_iff]
  simp

theorem highest (h : Listed id m rs) {last : Record} (hlast : rs.getLast? = some last)
    (hle : ∀ r ∈ rs, r.seq ≤ last.seq) : m.Highest last.seq where
  there := (h.isSome_iff _).mpr ⟨last, List.mem_of_getLast? hlast, rfl⟩
  le seq hs := by
    obtain ⟨r, hr, rfl⟩ := (h.isSome_iff seq).mp hs
    exact hle r hr

theorem place (h : Listed id m rs) {r : Record} (hid : r.id = id)
    (hasc : (r.place rs).Pairwise fun a b => a.seq < b.seq) :
    Listed id (m.put r.seq r.payload) (r.place rs) where
  ascending := hasc
  id_eq x hx := (Record.mem_place hx).elim (· ▸ hid) (h.id_eq x)
  holds seq payload := by
    simp only [put, Record.mem_place_iff h.ascending]
    by_cases hs : seq = r.seq
    · subst hs
      rw [Function.update_self]
      grind
    · rw [Function.update_of_ne hs, h.holds]
      grind

theorem cut (h : Listed id m rs) (b : Nat) : Listed id (m.cut b) (rs.filter (b ≤ ·.seq)) where
  ascending := h.ascending.filter _
  id_eq r hr := h.id_eq r (List.mem_filter.mp hr).1
  holds seq payload := by
    have := h.holds seq payload
    unfold Payloads.cut
    split <;> grind

theorem length_below (h : Listed id m rs) (b : Nat) : (rs.filter (·.seq < b)).length = m.countBelow b := by
  have hnodup : ((rs.filter (·.seq < b)).map (·.seq)).Nodup :=
    (List.pairwise_map.mpr (h.ascending.filter _)).imp fun hab => Nat.ne_of_lt hab
  rw [countBelow, Nat.count_eq_card_filter_range, ← List.length_map (·.seq), ← List.toFinset_card_of_nodup hnodup]
  congr 1
  ext seq
  simp only [List.mem_toFinset, List.mem_map, List.mem_filter, Finset.mem_filter, Finset.mem_range, h.isSome_iff]
  grind

end Listed
end Payloads

structure Shelf where
  entries : Payloads
  snapshots : Payloads

namespace Shelf
open Journal (Call Answer refuse)

def empty : Shelf := ⟨.none, .none⟩

inductive Step (id : String) (m : Shelf) : Call → Answer → Shelf → Prop
  /-- An entry above all others is taken. -/
  | append {stamp seq : Nat} {payload : String} : (∀ s, (m.entries s).isSome → s < seq) →
    Step id m (.write (.append stamp seq payload)) (.written (.ok ())) { m with entries := m.entries.put seq payload }
  | behind {stamp seq top : Nat} {payload : String} : m.entries.Highest top → seq ≤ top →
    Step id m (.write (.append stamp seq payload)) (.written (refuse ("seq " ++ Text.decimal seq ++
      " is not above stored seq " ++ Text.decimal top ++ " for " ++ id))) m
  | save {stamp seq : Nat} {payload : String} :
    Step id m (.write (.save stamp seq payload)) (.written (.ok ()))
      { m with snapshots := m.snapshots.put seq payload }
  /-- What is removed is counted in 32-bit words, as a `PruneCount` has them. -/
  | prune {b : Nat} :
    Step id m (.write (.prune b))
      (.pruned ⟨.ofNat (m.entries.countBelow b), .ofNat (m.snapshots.countBelow b)⟩)
      ⟨m.entries.cut b, m.snapshots.cut b⟩
  | replay {rs : List Record} : m.entries.Listed id rs → Step id m .replay (.entries (.ok rs)) m
  | missing : (∀ seq, m.snapshots seq = none) → Step id m .load (.snapshot (.ok none)) m
  | load {r : Record} : r.id = id → m.snapshots.Highest r.seq → m.snapshots r.seq = some r.payload →
    Step id m .load (.snapshot (.ok (some r))) m
  | reopen : Step id m .reopen .reopened m

inductive Runs (id : String) : Shelf → List (Call × Answer) → Prop
  | done (m : Shelf) : Runs id m []
  | call {m m' : Shelf} {c : Call} {a : Answer} {rest : List (Call × Answer)} :
    Step id m c a m' → Runs id m' rest → Runs id m ((c, a) :: rest)

structure Tells (id : String) (j : Journal) (es ss : List Record) (m : Shelf) : Prop where
  ledger : j.Ledger id es ss
  entries : m.entries.Listed id es
  snapshots : m.snapshots.Listed id ss

namespace Tells
variable {id : String} {j : Journal} {m : Shelf} {es ss : List Record}

theorem append (h : Tells id j es ss m) (hid : id ≠ "") {stamp seq : Nat} (hstamp : stamp < UInt64.size)
    (hseq : seq < UInt64.size) (payload : String) :
    ∃ m' es', Step id m (.write (.append stamp seq payload))
      (j.answer id (.write (.append stamp seq payload))) m' ∧
      Tells id (j.call id (.write (.append stamp seq payload))) es' ss m' := by
  obtain habove | ⟨last, hlast, hle⟩ := h.ledger.entries.above_or seq
  · have hledger := h.ledger.append hstamp hseq habove payload
    have hplace := Record.place_above (r := ⟨id, seq, payload, stamp⟩) habove
    rw [← hplace] at hledger
    refine ⟨{ m with entries := m.entries.put seq payload }, Record.place ⟨id, seq, payload, stamp⟩ es, ?_, ?_⟩
    · rw [Journal.answer, h.ledger.append_eq hid habove]
      exact .append (h.entries.above habove)
    · rw [Journal.call, Journal.write, h.ledger.append_eq hid habove]
      exact ⟨hledger, h.entries.place rfl hledger.entries.ascending, h.snapshots⟩
  · refine ⟨m, es, ?_, ?_⟩
    · rw [Journal.answer, h.ledger.append_refused hid hlast hle]
      exact .behind (h.entries.highest hlast (h.ledger.entries.le_last hlast)) hle
    · rw [Journal.call, Journal.write, h.ledger.append_refused hid hlast hle]
      exact h

theorem save (h : Tells id j es ss m) (hid : id ≠ "") {stamp seq : Nat} (hstamp : stamp < UInt64.size)
    (hseq : seq < UInt64.size) (payload : String) :
    ∃ m' ss', Step id m (.write (.save stamp seq payload))
      (j.answer id (.write (.save stamp seq payload))) m' ∧
      Tells id (j.call id (.write (.save stamp seq payload))) es ss' m' := by
  have hledger := h.ledger.save hstamp hseq payload
  refine ⟨{ m with snapshots := m.snapshots.put seq payload }, Record.place ⟨id, seq, payload, stamp⟩ ss, ?_, ?_⟩
  · rw [Journal.answer, Journal.save_eq hid]
    exact .save
  · rw [Journal.call, Journal.write, Journal.save_eq hid]
    exact ⟨hledger, h.entries, h.snapshots.place rfl hledger.snapshots.ascending⟩

theorem prune (h : Tells id j es ss m) {b : Nat} (hb : b < UInt64.size) :
    ∃ m' es' ss', Step id m (.write (.prune b)) (j.answer id (.write (.prune b))) m' ∧
      Tells id (j.call id (.write (.prune b))) es' ss' m' := by
  refine ⟨⟨m.entries.cut b, m.snapshots.cut b⟩, _, _, ?_, h.ledger.prune hb, h.entries.cut b, h.snapshots.cut b⟩
  have hcount : (j.prune id b).2 =
      ⟨.ofNat (m.entries.countBelow b), .ofNat (m.snapshots.countBelow b)⟩ := by
    simp only [Journal.prune, h.ledger.entries.range_below hb, h.ledger.snapshots.range_below hb, List.length_map,
      h.entries.length_below, h.snapshots.length_below]
  rw [Journal.answer, hcount]
  exact .prune

theorem replay (h : Tells id j es ss m) : Step id m .replay (j.answer id .replay) m := by
  rw [Journal.answer, h.ledger.replay]
  exact .replay h.entries

theorem load (h : Tells id j es ss m) : Step id m .load (j.answer id .load) m := by
  rw [Journal.answer, h.ledger.load]
  cases hlast : ss.getLast? with
  | none => exact .missing (h.snapshots.eq_none hlast)
  | some last =>
    have hmem := List.mem_of_getLast? hlast
    exact .load (h.snapshots.id_eq last hmem) (h.snapshots.highest hlast (h.ledger.snapshots.le_last hlast))
      ((h.snapshots.holds _ _).mpr ⟨last, hmem, rfl, rfl⟩)

/-- A call under `id` is answered as the reference model answers it. -/
theorem own (h : Tells id j es ss m) (hid : id ≠ "") {c : Call} (hc : c.Fits) :
    ∃ m' es' ss', Step id m c (j.answer id c) m' ∧ Tells id (j.call id c) es' ss' m' := by
  cases c with
  | replay => exact ⟨m, es, ss, h.replay, h⟩
  | load => exact ⟨m, es, ss, h.load, h⟩
  | reopen => exact ⟨m, es, ss, .reopen, h⟩
  | write w =>
    cases w with
    | append stamp seq payload =>
      obtain ⟨m', es', hstep, h'⟩ := h.append hid hc.1 hc.2 payload
      exact ⟨m', es', ss, hstep, h'⟩
    | save stamp seq payload =>
      obtain ⟨m', ss', hstep, h'⟩ := h.save hid hc.1 hc.2 payload
      exact ⟨m', es, ss', hstep, h'⟩
    | prune b => exact h.prune hc

/-- A call under an unrelated id makes no difference. -/
theorem elsewhere (h : Tells id j es ss m) {q : String} (hq : Unrelated id q) {c : Call} (hc : c.Fits) :
    Tells id (j.call q c) es ss m := by
  cases c with
  | replay | load | reopen => exact h
  | write w => exact ⟨h.ledger.elsewhere (.write w hq hc), h.entries, h.snapshots⟩

theorem runs (h : Tells id j es ss m) (hid : id ≠ "") {calls : List (String × Call)}
    (hfits : ∀ x ∈ calls, x.2.Fits) (hothers : ∀ x ∈ calls, x.1 ≠ id → Unrelated id x.1) :
    Runs id m (j.answersTo id calls) := by
  induction calls generalizing j m es ss with
  | nil => exact .done m
  | cons x rest ih =>
    obtain ⟨q, c⟩ := x
    obtain ⟨hc, hfits⟩ := List.forall_mem_cons.mp hfits
    obtain ⟨hq, hothers⟩ := List.forall_mem_cons.mp hothers
    by_cases hown : q = id
    · subst hown
      obtain ⟨m', es', ss', hstep, h'⟩ := h.own hid hc
      rw [Journal.answersTo, if_pos rfl]
      exact .call hstep (ih h' hfits hothers)
    · rw [Journal.answersTo, if_neg hown]
      exact ih (h.elsewhere (hq hown) hc) hfits hothers

end Tells

theorem Tells.empty (id : String) : Tells id .empty [] [] empty :=
  ⟨⟨.empty, .empty⟩, .empty, .empty⟩

end Shelf

namespace Journal

/-- A write that is not taken leaves both tables as they are. -/
theorem call_of_error (j : Journal) {id : String} {w : Write} {e : JournalError}
    (h : j.answer id (.write w) = .written (.error e)) : j.call id (.write w) = j := by
  cases w with
  | append stamp seq payload =>
    cases happend : j.append stamp id seq payload with
    | ok j' => simp [answer, happend, Except.map] at h
    | error e' => simp [call, write, happend, Except.toOption]
  | save stamp seq payload =>
    cases hsave : j.save stamp id seq payload with
    | ok j' => simp [answer, hsave, Except.map] at h
    | error e' => simp [call, write, hsave, Except.toOption]
  | prune b => simp [answer] at h

/-- From the empty journal on, all calls under `id` are answered as the reference model answers them, whatever is
called under unrelated ids. Writes that are not taken change nothing, and none is taken under the empty id. -/
theorem answers_as_shelf {id : String} (hid : id ≠ "") {calls : List (String × Call)}
    (hfits : ∀ x ∈ calls, x.2.Fits) (hothers : ∀ x ∈ calls, x.1 ≠ id → Unrelated id x.1) :
    Shelf.Runs id .empty (empty.answersTo id calls) ∧
    (∀ (q : String) (w : Write) (e : JournalError), (empty.after calls).answer q (.write w) = .written (.error e) →
      (empty.after calls).call q (.write w) = empty.after calls) ∧
    ∀ (stamp seq : Nat) (payload : String),
      (empty.after calls).answer "" (.write (.append stamp seq payload)) =
        .written (refuse "empty persistence id") ∧
      (empty.after calls).answer "" (.write (.save stamp seq payload)) = .written (refuse "empty persistence id") :=
  ⟨(Shelf.Tells.empty id).runs hid hfits hothers, fun _ _ _ => call_of_error _, fun _ _ _ => ⟨rfl, rfl⟩⟩

theorem shelf_after_prune :
    Shelf.Runs "a" .empty (empty.answersTo "a" [("a", .write (.append 0 1 "x")), ("b", .write (.append 0 7 "y")),
      ("a", .write (.save 0 1 "z")), ("a", .write (.prune 5)), ("a", .reopen), ("a", .load)]) :=
  (answers_as_shelf (by decide) (by decide) (by decide)).1

end Journal
end HealthSignal
