import HealthSignal.Proofs.Journal.Call
import HealthSignal.Proofs.Journal.Contents

/-! What an id has to do with other ids. A journal answers under an id from its own records and from those of
ids that continue it with a colon; calls under all other ids make no difference, but for prunes under an id that it
continues. -/
namespace HealthSignal

def Table.Holds (kind : RecordKind) (ids : List String) (t : Table) : Prop :=
  ∀ x ∈ t, ∃ r : Record, r.Fits ∧ r.id ∈ ids ∧ r.stored kind = x

namespace Table.Holds
variable {kind : RecordKind} {ids : List String} {t : Table}

theorem insert (h : t.Holds kind ids) {r : Record} (hr : r.Fits) (hid : r.id ∈ ids) :
    (t.insert (recordKey r.id r.seq) (r.toJson kind)).Holds kind ids :=
  Shows.insert h hr hid

theorem filter (h : t.Holds kind ids) (p : String × String → Bool) : Table.Holds kind ids (t.filter p) :=
  Shows.filter h p

/-- The range of an id holds its records and those of ids that continue it. -/
theorem exists_records_ofId (h : t.Holds kind ids) (p : String) :
    ∃ rs : List Record, t.inRange (.ofId p) = rs.map (Record.stored kind) ∧ (∀ r ∈ rs, r.Fits) ∧
      ∀ r ∈ rs, r.id = p ∨ Continues p r.id ∧ r.id ∈ ids := by
  obtain ⟨rs, hrange, hfits, hids⟩ := Shows.exists_records (h.filter ((KeyRange.ofId p).contains ·.1))
  refine ⟨rs, hrange, hfits, fun r hr => ?_⟩
  have hmem : r.stored kind ∈ t.inRange (.ofId p) := by
    rw [Table.inRange, hrange]
    exact List.mem_map_of_mem hr
  have hin : (KeyRange.ofId p).contains (recordKey r.id r.seq) = true := (List.mem_filter.mp hmem).2
  exact ((contains_ofId_recordKey (hfits r hr).seq).mp hin).imp_right fun hc => ⟨hc, hids r hr⟩

end Table.Holds

namespace Journal

structure Holds (ids : List String) (j : Journal) : Prop where
  entries : j.entries.Holds .entry ids
  snapshots : j.snapshots.Holds .snapshot ids

namespace Holds
variable {ids : List String} {j : Journal}

theorem call (h : Holds ids j) {id : String} (hid : id ∈ ids) {c : Call} (hc : c.Fits) :
    Holds ids (j.call id c) := by
  cases c with
  | replay | load | reopen => exact h
  | write w =>
    obtain he | ⟨kind, r, rfl, hr, he⟩ | ⟨below, -, he⟩ := write_cases j id hc
    · rwa [Journal.call, he]
    · rw [Journal.call, he]
      cases kind with
      | entry => exact ⟨h.entries.insert hr hid, h.snapshots⟩
      | snapshot => exact ⟨h.entries, h.snapshots.insert hr hid⟩
    · rw [Journal.call, he]
      exact ⟨h.entries.filter _, h.snapshots.filter _⟩

theorem after (h : Holds ids j) {calls : List (String × Call)} (hfits : ∀ x ∈ calls, x.2.Fits)
    (hids : ∀ x ∈ calls, x.1 ∈ ids) : Holds ids (j.after calls) := by
  induction calls generalizing j with
  | nil => exact h
  | cons x rest ih =>
    obtain ⟨hc, hfits⟩ := List.forall_mem_cons.mp hfits
    obtain ⟨hid, hids⟩ := List.forall_mem_cons.mp hids
    exact ih (h.call hid hc) hfits hids

theorem replay (h : Holds ids j) (p : String) :
    ∃ rs, j.replay p = .ok rs ∧ ∀ r ∈ rs, r.id = p ∨ Continues p r.id ∧ r.id ∈ ids := by
  obtain ⟨rs, hrange, hfits, hids⟩ := h.entries.exists_records_ofId p
  exact ⟨rs, by rw [Journal.replay, hrange, Table.decodeAll_stored hfits], hids⟩

theorem load (h : Holds ids j) (p : String) :
    ∃ last, j.load p = .ok last ∧ ∀ r ∈ last, r.id = p ∨ Continues p r.id ∧ r.id ∈ ids := by
  obtain ⟨rs, hrange, hfits, hids⟩ := h.snapshots.exists_records_ofId p
  refine ⟨rs.getLast?, by rw [Journal.load, hrange, Table.decodeLast_stored hfits], fun r hr => ?_⟩
  exact hids r (List.mem_of_getLast? hr)

end Holds

theorem Sorted.empty : Sorted empty := ⟨List.Pairwise.nil, List.Pairwise.nil⟩

theorem Sorted.after {j : Journal} (h : j.Sorted) {calls : List (String × Call)}
    (hfits : ∀ x ∈ calls, x.2.Fits) : (j.after calls).Sorted := by
  induction calls generalizing j with
  | nil => exact h
  | cons x rest ih =>
    obtain ⟨hc, hfits⟩ := List.forall_mem_cons.mp hfits
    exact ih (h.call x.1 hc) hfits

/-- After any calls at all, what is replayed and loaded under `p` are records of `p`, or of ids among them that
continue `p`. Whatever is called under `p` from then on is answered as if nothing had been called in between under
ids that neither continue `p` nor, where they are pruned, are continued by it. -/
theorem apart_from_others {before calls : List (String × Call)} (hbefore : ∀ x ∈ before, x.2.Fits)
    (hfits : ∀ x ∈ calls, x.2.Fits) {p : String} (hothers : ∀ x ∈ calls, x.1 ≠ p → x.2.Clear p x.1) :
    (∃ rs, (empty.after before).replay p = .ok rs ∧
      ∀ r ∈ rs, r.id = p ∨ Continues p r.id ∧ r.id ∈ before.map (·.1)) ∧
    (∃ last, (empty.after before).load p = .ok last ∧
      ∀ r ∈ last, r.id = p ∨ Continues p r.id ∧ r.id ∈ before.map (·.1)) ∧
    (empty.after before).answersTo p calls =
      (empty.after before).answersTo p (calls.filter (·.1 = p)) := by
  have hempty : Holds (before.map (·.1)) empty := ⟨by simp [empty, Table.Holds], by simp [empty, Table.Holds]⟩
  have hholds := hempty.after hbefore fun x hx => List.mem_map_of_mem hx
  have hsorted : (empty.after before).Sorted :=
    Sorted.empty.after hbefore
  have halike : Alike p (empty.after before) (empty.after before) := ⟨rfl, rfl⟩
  exact ⟨hholds.replay p, hholds.load p, halike.answersTo hsorted hsorted hfits hothers⟩

theorem apart_after_prune :
    let before := [("a", Call.write (.append 0 1 "x")), ("b", .write (.append 0 1 "y"))]
    (empty.after before).answersTo "a" [("b", .write (.prune 5)), ("a", .replay)] =
      (empty.after before).answersTo "a" [("a", .replay)] :=
  (@apart_from_others [("a", .write (.append 0 1 "x")), ("b", .write (.append 0 1 "y"))]
    [("b", .write (.prune 5)), ("a", .replay)] (by decide) (by decide) "a" (by decide)).2.2

/-- The only entry is one of `a:b`. It is replayed under `a` as well, and no entry of `a` with its number is taken
any more. -/
theorem shown_under_shorter_id :
    let r : Record := ⟨"a:b", 1, "x", 0⟩
    let j := empty.call "a:b" (.write (.append 0 1 "x"))
    j.replay "a" = .ok [r] ∧ r.id ≠ "a" ∧
      empty.answer "a" (.write (.append 0 1 "y")) = .written (.ok ()) ∧
      ∃ e, j.answer "a" (.write (.append 0 1 "y")) = .written (.error e) := by
  intro r j
  have hfits : ∀ x ∈ [r], x.Fits := List.forall_mem_singleton.mpr ⟨by decide, by decide⟩
  have hin : (KeyRange.ofId "a").contains (recordKey r.id r.seq) = true :=
    (contains_ofId_recordKey (by decide)).mpr (Or.inr (by decide))
  have hrange : j.entries.inRange (.ofId "a") = [r].map (Record.stored .entry) := List.filter_eq_self.mpr
    (List.forall_mem_singleton.mpr hin)
  refine ⟨?_, by decide, rfl, ?_⟩
  · rw [Journal.replay, hrange, Table.decodeAll_stored hfits]
  · simp only [answer, append, hrange, Table.decodeLast_stored hfits]
    exact ⟨_, rfl⟩

end Journal
end HealthSignal
