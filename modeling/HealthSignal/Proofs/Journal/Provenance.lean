import HealthSignal.Proofs.Journal.Isolation
import HealthSignal.Proofs.Json.Status
import Mathlib.Data.List.Induction

/-! Where the records come from that a journal gives back. Each was taken from a write of its own, with the id, the
number and the payload that it had there; and a write that is taken is given back. -/
namespace HealthSignal
open Text

variable {kind : RecordKind}

namespace Journal

def table (j : Journal) : RecordKind → Table
  | .entry => j.entries
  | .snapshot => j.snapshots

def writeOf : RecordKind → Record → Write
  | .entry, r => .append r.stamp r.seq r.payload
  | .snapshot, r => .save r.stamp r.seq r.payload

def Takes (j : Journal) (id : String) (w : Write) : Prop := j.answer id (.write w) = .written (.ok ())

def TakenIn (calls : List (String × Call)) (kind : RecordKind) (r : Record) : Prop :=
  ∃ before later, calls = before ++ (r.id, .write (writeOf kind r)) :: later ∧
    (empty.after before).Takes r.id (writeOf kind r)

variable {j : Journal} {id p : String} {calls : List (String × Call)}

theorem after_concat (j : Journal) (calls : List (String × Call)) (id : String) (c : Call) :
    j.after (calls ++ [(id, c)]) = (j.after calls).call id c := by
  induction calls generalizing j with
  | nil => rfl
  | cons x rest ih => exact ih (j.call x.1 x.2)

theorem TakenIn.concat {r : Record} (h : TakenIn calls kind r) (x : String × Call) :
    TakenIn (calls ++ [x]) kind r := by
  obtain ⟨before, later, rfl, htake⟩ := h
  exact ⟨before, later ++ [x], by simp, htake⟩

/-- A call leaves a journal as it is, puts the record of a write that is taken into its table, or prunes. -/
theorem call_cases (j : Journal) (id : String) {c : Call} (hc : c.Fits) :
    j.call id c = j ∨
    (∃ kind r, r.id = id ∧ r.Fits ∧ c = .write (writeOf kind r) ∧ j.Takes id (writeOf kind r) ∧
      j.call id c = j.put kind id r.seq (r.toJson kind)) ∨
    ∃ below, j.call id c = (j.prune id below).1 := by
  cases c with
  | replay | load | reopen => exact Or.inl rfl
  | write w =>
    cases w with
    | append stamp seq payload =>
      have hput := append_put j id stamp seq payload
      cases happend : j.append stamp id seq payload with
      | error e => exact Or.inl (by rw [call, write, happend]; rfl)
      | ok j' =>
        rw [happend] at hput
        refine Or.inr (Or.inl ⟨.entry, ⟨id, seq, payload, stamp⟩, rfl, ⟨hc.2, hc.1⟩, rfl, ?_, ?_⟩)
        · rw [Takes, writeOf, answer, happend]
          rfl
        · rw [call, write, happend, hput]
          rfl
    | save stamp seq payload =>
      by_cases hid : id = ""
      · subst hid
        exact Or.inl rfl
      · refine Or.inr (Or.inl ⟨.snapshot, ⟨id, seq, payload, stamp⟩, rfl, ⟨hc.2, hc.1⟩, rfl, ?_, ?_⟩)
        · rw [Takes, writeOf, answer, save_eq hid]
          rfl
        · rw [call, write, save_eq hid]
          rfl
    | prune below => exact Or.inr (Or.inr ⟨below, rfl⟩)

/-- What is put into a journal is a record of the property, and so is all that was there. -/
theorem shows_put {P : RecordKind → Record → Prop} (h : ∀ kind, (j.table kind).Shows kind (P kind))
    {r : Record} (hr : r.Fits) (hP : P kind r) (k : RecordKind) :
    ((j.put kind r.id r.seq (r.toJson kind)).table k).Shows k (P k) := by
  cases kind <;> cases k <;> first | exact (h _).insert hr hP | exact h _

/-- Every record of a journal was taken from a write among the calls on it. -/
theorem shows_after (hfits : ∀ x ∈ calls, x.2.Fits) (kind : RecordKind) :
    ((empty.after calls).table kind).Shows kind (TakenIn calls kind) := by
  induction calls using List.reverseRecOn generalizing kind with
  | nil => cases kind <;> exact fun x hx => absurd hx List.not_mem_nil
  | append_singleton calls x ih =>
    obtain ⟨id, c⟩ := x
    have hc : c.Fits := hfits (id, c) (by simp)
    have hbefore (kind : RecordKind) :
        ((empty.after calls).table kind).Shows kind (TakenIn (calls ++ [(id, c)]) kind) :=
      (ih (fun x hx => hfits x (List.mem_append_left _ hx)) kind).mono fun r hr => hr.concat _
    rw [after_concat]
    obtain he | ⟨k, r, rfl, hr, rfl, htake, he⟩ | ⟨below, he⟩ := call_cases (empty.after calls) id hc
    · rw [he]
      exact hbefore kind
    · rw [he]
      exact shows_put hbefore hr ⟨calls, [], rfl, htake⟩ kind
    · rw [he]
      cases kind with
      | entry => exact (hbefore .entry).filter _
      | snapshot => exact (hbefore .snapshot).filter _

/-- What is taken is in its table. -/
theorem stored_mem_call {r : Record} (htake : j.Takes r.id (writeOf kind r)) :
    r.stored kind ∈ (j.call r.id (.write (writeOf kind r))).table kind := by
  cases kind with
  | entry =>
    have hput := append_put j r.id r.stamp r.seq r.payload
    cases happend : j.append r.stamp r.id r.seq r.payload with
    | error e => simp [Takes, writeOf, answer, happend, Except.map] at htake
    | ok j' =>
      rw [happend] at hput
      rw [call, writeOf, write, happend, hput]
      exact Table.mem_insert_self ..
  | snapshot =>
    by_cases hid : r.id = ""
    · rw [Takes, hid] at htake
      cases htake
    · rw [call, writeOf, write, save_eq hid]
      exact Table.mem_insert_self ..

structure InRange (j : Journal) (kind : RecordKind) (id : String) (rs : List Record) : Prop where
  range : (j.table kind).inRange (.ofId id) = rs.map (Record.stored kind)
  fits : ∀ r ∈ rs, r.Fits

namespace InRange
variable {rs : List Record}

theorem replay (h : j.InRange .entry id rs) : j.replay id = .ok rs :=
  (congrArg _ h.range).trans (Table.decodeAll_stored h.fits)

theorem load (h : j.InRange .snapshot id rs) : j.load id = .ok rs.getLast? :=
  (congrArg _ h.range).trans (Table.decodeLast_stored h.fits)

theorem mem (h : j.InRange kind id rs) {r : Record} (hid : r.id = id) (hr : r.Fits)
    (hmem : r.stored kind ∈ j.table kind) : r ∈ rs := by
  have hin : (KeyRange.ofId id).contains (recordKey r.id r.seq) = true :=
    (contains_ofId_recordKey hr.seq).mpr (Or.inl hid)
  have hrange : r.stored kind ∈ rs.map (Record.stored kind) := by
    rw [← h.range]
    exact List.mem_filter.mpr ⟨hmem, hin⟩
  obtain ⟨s, hs, heq⟩ := List.mem_map.mp hrange
  rwa [Record.stored_inj hr (h.fits s hs) heq.symm]

/-- The last record of an id is of the latest key. -/
theorem eq_or_precedes (h : j.InRange kind id rs) (hsorted : (j.table kind).Sorted) {r last : Record}
    (hlast : rs.getLast? = some last) (hr : r ∈ rs) :
    last = r ∨ precedes (recordKey r.id r.seq) (recordKey last.id last.seq) = true := by
  have hrange : Table.Sorted (rs.map (Record.stored kind)) := h.range ▸ hsorted.filter _
  have hstored : (rs.map (Record.stored kind)).getLast? = some (last.stored kind) := by
    rw [List.getLast?_map, hlast]
    rfl
  obtain heq | hlt := hrange.eq_or_precedes hstored (List.mem_map_of_mem hr)
  · exact Or.inl (Record.stored_inj (h.fits r hr) (h.fits last (List.mem_of_getLast? hlast)) heq).symm
  · exact Or.inr hlt

end InRange

theorem exists_inRange {P : RecordKind → Record → Prop} (h : (j.table kind).Shows kind (P kind)) (id : String) :
    ∃ rs, j.InRange kind id rs ∧ ∀ r ∈ rs, P kind r := by
  obtain ⟨rs, hrange, hfits, hP⟩ := (h.filter ((KeyRange.ofId id).contains ·.1)).exists_records
  exact ⟨rs, ⟨hrange, hfits⟩, hP⟩

/-- A record that is taken is in the range of its id. -/
theorem exists_inRange_call (hfits : ∀ x ∈ calls, x.2.Fits) {r : Record} (hr : r.Fits)
    (htake : (empty.after calls).Takes r.id (writeOf kind r)) :
    ∃ rs, ((empty.after calls).call r.id (.write (writeOf kind r))).InRange kind r.id rs ∧ r ∈ rs := by
  have hcall : Call.Fits (.write (writeOf kind r)) := by
    cases kind <;> exact ⟨hr.stamp, hr.seq⟩
  have hall : ∀ x ∈ calls ++ [(r.id, Call.write (writeOf kind r))], x.2.Fits :=
    List.forall_mem_append.mpr ⟨hfits, List.forall_mem_singleton.mpr hcall⟩
  have hshows := shows_after hall kind
  rw [after_concat] at hshows
  obtain ⟨rs, hrange, -⟩ := exists_inRange hshows r.id
  exact ⟨rs, hrange, hrange.mem rfl hr (stored_mem_call htake)⟩

/-- Every record, status and signal is decoded from its JSON text as it was. After any calls, everything that is
replayed or loaded under an id was appended or saved with the id, the number and the payload that it shows. An entry
that is taken is replayed, and a snapshot that is taken is loaded, unless there is one of a later key. -/
theorem given_back_as_written {calls : List (String × Call)} (hfits : ∀ x ∈ calls, x.2.Fits) :
    (∀ kind (r : Record), r.Fits → Record.ofJson? kind (r.toJson kind) = some r) ∧
    (∀ s : Status, Status.ofJson? s.toJson = some s) ∧ (∀ s : Signal, Signal.ofJson? s.toJson = some s) ∧
    (∀ p, ∃ rs, (empty.after calls).replay p = .ok rs ∧ ∀ r ∈ rs, TakenIn calls .entry r) ∧
    (∀ p, ∃ last, (empty.after calls).load p = .ok last ∧ ∀ r ∈ last, TakenIn calls .snapshot r) ∧
    (∀ r : Record, r.Fits → (empty.after calls).Takes r.id (writeOf .entry r) →
      ∃ rs, ((empty.after calls).call r.id (.write (writeOf .entry r))).replay r.id = .ok rs ∧ r ∈ rs) ∧
    ∀ r : Record, r.Fits → (empty.after calls).Takes r.id (writeOf .snapshot r) →
      ∃ s, ((empty.after calls).call r.id (.write (writeOf .snapshot r))).load r.id = .ok (some s) ∧
        (s = r ∨ precedes (recordKey r.id r.seq) (recordKey s.id s.seq) = true) := by
  have hshows := shows_after hfits
  refine ⟨fun kind r hr => Record.ofJson?_toJson kind hr, Status.ofJson?_toJson, Signal.ofJson?_toJson,
    ?_, ?_, ?_, ?_⟩
  · intro p
    obtain ⟨rs, hrange, hrs⟩ := exists_inRange (hshows .entry) p
    exact ⟨rs, hrange.replay, hrs⟩
  · intro p
    obtain ⟨rs, hrange, hrs⟩ := exists_inRange (hshows .snapshot) p
    exact ⟨_, hrange.load, fun r hr => hrs r (List.mem_of_getLast? hr)⟩
  · intro r hr htake
    obtain ⟨rs, hrange, hmem⟩ := exists_inRange_call hfits hr htake
    exact ⟨rs, hrange.replay, hmem⟩
  · intro r hr htake
    obtain ⟨rs, hrange, hmem⟩ := exists_inRange_call hfits hr htake
    have hsorted := (((Sorted.empty.after hfits).call r.id (c := .write (writeOf .snapshot r))
      ⟨hr.stamp, hr.seq⟩)).snapshots
    have hload := hrange.load
    cases hlast : rs.getLast? with
    | none =>
      rw [List.getLast?_eq_none_iff.mp hlast] at hmem
      cases hmem
    | some s =>
      rw [hlast] at hload
      exact ⟨s, hload, hrange.eq_or_precedes hsorted hlast hmem⟩

/-- Quotes, a backslash, a control character, one beyond the basic plane, and the largest number are given back. -/
theorem replayed_with_escapes :
    let r : Record := ⟨"node \"a\"", 18446744073709551615, "\\ \x01 \u2028 😀", 7⟩
    let calls := [(r.id, Call.write (.save 7 1 "x"))]
    (∀ x ∈ calls, x.2.Fits) ∧
      ∃ rs, ((empty.after calls).call r.id (.write (writeOf .entry r))).replay r.id = .ok rs ∧ r ∈ rs := by
  intro r calls
  have hfits : ∀ x ∈ calls, x.2.Fits := by decide
  obtain ⟨-, -, -, -, -, happend, -⟩ := given_back_as_written hfits
  exact ⟨hfits, happend r ⟨by decide, by decide⟩ rfl⟩

end Journal
end HealthSignal
