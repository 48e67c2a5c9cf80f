import HealthSignal.Proofs.Journal.Key
import HealthSignal.Proofs.Journal.Record
import HealthSignal.Proofs.Journal.Table
import HealthSignal.Journal.Basic

/-! The records of one id in a journal. Calls of the id act on them as on two lists in the order of their
numbers; calls of unrelated ids leave them as they are. -/
namespace HealthSignal
open Text

def Record.stored (kind : RecordKind) (r : Record) : String × String :=
  (recordKey r.id r.seq, r.toJson kind)

def Record.place (r : Record) : List Record → List Record
  | [] => [r]
  | x :: rest =>
    if x.seq < r.seq then x :: place r rest
    else if r.seq < x.seq then r :: x :: rest
    else r :: rest

theorem Record.place_above {r : Record} {rs : List Record} (h : ∀ x ∈ rs, x.seq < r.seq) :
    r.place rs = rs ++ [r] := by
  induction rs with
  | nil => rfl
  | cons x rest ih =>
    rw [place, if_pos (h x List.mem_cons_self), ih fun y hy => h y (List.mem_cons_of_mem x hy)]
    rfl

theorem Record.mem_place {r x : Record} {rs : List Record} (h : x ∈ r.place rs) :
    x = r ∨ x ∈ rs := by
  induction rs with
  | nil => simpa [place] using h
  | cons y rest ih =>
    unfold place at h
    split at h
    · grind
    · split at h <;> grind

/-- Placing a record takes away the one with its number and no other. -/
theorem Record.mem_place_iff {r x : Record} {rs : List Record}
    (h : rs.Pairwise fun a b => a.seq < b.seq) : x ∈ r.place rs ↔ x = r ∨ x ∈ rs ∧ x.seq ≠ r.seq := by
  induction rs with
  | nil => simp [place]
  | cons y rest ih =>
    obtain ⟨hy, hrest⟩ := List.pairwise_cons.mp h
    have ih := ih hrest
    unfold place
    split
    · grind
    · split <;> grind

namespace Table

theorem decode_stored (kind : RecordKind) {r : Record} (hr : r.Fits) :
    Journal.decode kind (r.toJson kind) = .ok r := by
  rw [Journal.decode, Record.ofJson?_toJson kind hr]

theorem decodeLast_stored {kind : RecordKind} {rs : List Record} (hfits : ∀ r ∈ rs, r.Fits) :
    Journal.decodeLast kind (rs.map (Record.stored kind)) = .ok rs.getLast? := by
  rw [Journal.decodeLast, List.getLast?_map]
  cases hlast : rs.getLast? with
  | none => rfl
  | some last =>
    have := decode_stored kind (hfits last (List.mem_of_getLast? hlast))
    simp [Record.stored, this, Except.map]

theorem decodeAll_stored {kind : RecordKind} {rs : List Record} (hfits : ∀ r ∈ rs, r.Fits) :
    (rs.map (Record.stored kind)).mapM (fun (_, text) => Journal.decode kind text) = .ok rs := by
  induction rs with
  | nil => rfl
  | cons r rest ih =>
    have hr := decode_stored kind (hfits r List.mem_cons_self)
    rw [List.map_cons, List.mapM_cons, ih fun x hx => hfits x (List.mem_cons_of_mem r hx)]
    simp only [Record.stored, hr]
    rfl

theorem inRange_below (t : Table) (p : String) {b : Nat} (hb : b < UInt64.size) :
    t.inRange (.below p b) = (t.inRange (.ofId p)).inRange (.below p b) := by
  rw [inRange, inRange, inRange, List.filter_filter]
  refine List.filter_congr fun x _ => ?_
  cases hx : (KeyRange.below p b).contains x.1 with
  | false => rfl
  | true => rw [contains_ofId_of_contains_below hb hx]; rfl

theorem inRange_removeRange_apart (t : Table) {p q : String} {b : Nat} (hq : Unrelated p q)
    (hb : b < UInt64.size) : (t.removeRange (.below q b)).inRange (.ofId p) = t.inRange (.ofId p) := by
  rw [inRange_removeRange, List.filter_eq_self]
  intro x hx
  rw [Bool.not_eq_true', Bool.eq_false_iff]
  intro hbelow
  have hin := contains_ofId_of_contains_below hb hbelow
  rw [hq.apart (List.mem_filter.mp hx).2] at hin
  exact Bool.false_ne_true hin

end Table

structure Table.Lists (kind : RecordKind) (id : String) (t : Table) (rs : List Record) : Prop where
  sorted : t.Sorted
  range : t.inRange (.ofId id) = rs.map (Record.stored kind)
  id_eq : ∀ r ∈ rs, r.id = id
  fits : ∀ r ∈ rs, r.Fits

namespace Table.Lists
variable {kind : RecordKind} {id : String} {t : Table} {rs : List Record}

theorem empty : Lists kind id [] [] := ⟨List.Pairwise.nil, rfl, by simp, by simp⟩

theorem ascending (h : Lists kind id t rs) : rs.Pairwise fun a b => a.seq < b.seq := by
  have hs : (rs.map (Record.stored kind)).Pairwise fun a b => precedes a.1 b.1 = true := by
    rw [← h.range]
    exact h.sorted.filter _
  refine (List.pairwise_map.mp hs).imp_of_mem fun ha hb hab => ?_
  simpa only [Record.stored, h.id_eq _ ha, h.id_eq _ hb,
    precedes_recordKey (h.fits _ ha).seq (h.fits _ hb).seq] using hab

theorem insert_stored {r : Record} (hid : r.id = id) (hr : r.Fits) (hids : ∀ x ∈ rs, x.id = id)
    (hfits : ∀ x ∈ rs, x.Fits) :
    Table.insert (recordKey r.id r.seq) (r.toJson kind) (rs.map (Record.stored kind)) =
      (r.place rs).map (Record.stored kind) := by
  induction rs with
  | nil => rfl
  | cons x rest ih =>
    have hx := hfits x List.mem_cons_self
    have hxid := hids x List.mem_cons_self
    have ih := ih (fun y hy => hids y (List.mem_cons_of_mem x hy))
      fun y hy => hfits y (List.mem_cons_of_mem x hy)
    rw [List.map_cons, Record.stored, Table.insert, Record.place]
    simp only [hid, hxid, precedes_recordKey hx.seq hr.seq, precedes_recordKey hr.seq hx.seq]
    split
    · rw [← hid, ih, List.map_cons, Record.stored, hxid, hid]
    · split
      · simp only [List.map_cons, Record.stored, hid, hxid]
      · simp only [List.map_cons, Record.stored, hid]

theorem insert (h : Lists kind id t rs) {r : Record} (hid : r.id = id) (hr : r.Fits) :
    Lists kind id (t.insert (recordKey id r.seq) (r.toJson kind)) (r.place rs) where
  sorted := h.sorted.insert
  range := by
    rw [inRange_insert_inside h.sorted ((contains_ofId_recordKey hr.seq).mpr (Or.inl rfl)), h.range,
      ← insert_stored hid hr h.id_eq h.fits, hid]
  id_eq x hx := (Record.mem_place hx).elim (· ▸ hid) (h.id_eq x)
  fits x hx := (Record.mem_place hx).elim (· ▸ hr) (h.fits x)

theorem insert_unrelated (h : Lists kind id t rs) {q : String} {seq : Nat} (hq : Unrelated id q)
    (hseq : seq < UInt64.size) (text : String) : Lists kind id (t.insert (recordKey q seq) text) rs where
  sorted := h.sorted.insert
  range := by
    rw [inRange_insert_outside, h.range]
    rw [Bool.eq_false_iff, Ne, contains_ofId_recordKey hseq]
    exact fun h => h.elim hq.ne hq.forth
  id_eq := h.id_eq
  fits := h.fits

theorem contains_below (h : Lists kind id t rs) {b : Nat} (hb : b < UInt64.size) {r : Record} (hr : r ∈ rs) :
    (KeyRange.below id b).contains (r.stored kind).1 = decide (r.seq < b) := by
  have hiff := contains_below_recordKey (p := id) (h.fits r hr).seq hb
  rw [Record.stored, h.id_eq r hr]
  exact Bool.eq_iff_iff.mpr (hiff.trans decide_eq_true_iff.symm)

theorem range_below (h : Lists kind id t rs) {b : Nat} (hb : b < UInt64.size) :
    t.inRange (.below id b) = (rs.filter (·.seq < b)).map (Record.stored kind) := by
  rw [inRange_below t id hb, h.range, inRange, List.filter_map]
  congr 1
  exact List.filter_congr fun r hr => h.contains_below hb hr

theorem removeBelow (h : Lists kind id t rs) {b : Nat} (hb : b < UInt64.size) :
    Lists kind id (t.removeRange (.below id b)) (rs.filter (b ≤ ·.seq)) where
  sorted := h.sorted.filter _
  range := by
    rw [inRange_removeRange, h.range, List.filter_map]
    congr 1
    refine List.filter_congr fun r hr => ?_
    simp only [Function.comp, h.contains_below hb hr, ← decide_not, Nat.not_lt]
  id_eq r hr := h.id_eq r (List.mem_filter.mp hr).1
  fits r hr := h.fits r (List.mem_filter.mp hr).1

theorem removeBelow_unrelated (h : Lists kind id t rs) {q : String} {b : Nat}
    (hq : Unrelated id q) (hb : b < UInt64.size) :
    Lists kind id (t.removeRange (.below q b)) rs where
  sorted := h.sorted.filter _
  range := (inRange_removeRange_apart t hq hb).trans h.range
  id_eq := h.id_eq
  fits := h.fits

/-- The last record is the highest. -/
theorem le_last (h : Lists kind id t rs) {last : Record} (hlast : rs.getLast? = some last) :
    ∀ r ∈ rs, r.seq ≤ last.seq := by
  obtain ⟨front, rfl⟩ := List.getLast?_eq_some_iff.mp hlast
  intro r hr
  have hp := (List.pairwise_append.mp h.ascending).2.2
  obtain hr | hr := List.mem_append.mp hr
  · exact Nat.le_of_lt (hp r hr last List.mem_cons_self)
  · exact Nat.le_of_eq (congrArg Record.seq (List.mem_singleton.mp hr))

/-- A number is above all records or at most that of the last. -/
theorem above_or (h : Lists kind id t rs) (seq : Nat) :
    (∀ r ∈ rs, r.seq < seq) ∨ ∃ last, rs.getLast? = some last ∧ seq ≤ last.seq := by
  cases hlast : rs.getLast? with
  | none =>
    obtain rfl := List.getLast?_eq_none_iff.mp hlast
    exact Or.inl (by simp)
  | some last =>
    obtain hle | hlt := Nat.lt_or_ge last.seq seq |>.symm
    · exact Or.inr ⟨last, rfl, hle⟩
    · exact Or.inl fun r hr => Nat.lt_of_le_of_lt (h.le_last hlast r hr) hlt

theorem decodeLast (h : Lists kind id t rs) :
    Journal.decodeLast kind (t.inRange (.ofId id)) = .ok rs.getLast? := by
  rw [h.range, decodeLast_stored h.fits]

theorem decodeAll (h : Lists kind id t rs) :
    (t.inRange (.ofId id)).mapM (fun (_, text) => Journal.decode kind text) = .ok rs := by
  rw [h.range, decodeAll_stored h.fits]

/-- A table says what its records are. -/
theorem unique {rs' : List Record} (h : Lists kind id t rs) (h' : Lists kind id t rs') : rs = rs' :=
  Except.ok.inj (h.decodeAll.symm.trans h'.decodeAll)

/-- Only the last record is not below its own number. -/
theorem filter_last (h : Lists kind id t rs) {last : Record} (hlast : rs.getLast? = some last) :
    rs.filter (last.seq ≤ ·.seq) = [last] := by
  obtain ⟨front, rfl⟩ := List.getLast?_eq_some_iff.mp hlast
  have hp := (List.pairwise_append.mp h.ascending).2.2
  have hfront : front.filter (last.seq ≤ ·.seq) = [] :=
    List.filter_eq_nil_iff.mpr fun r hr => by
      have := hp r hr last List.mem_cons_self
      simp only [decide_eq_true_eq]
      omega
  rw [List.filter_append, hfront]
  simp

end Table.Lists

namespace Journal

structure Ledger (id : String) (j : Journal) (es ss : List Record) : Prop where
  entries : Table.Lists .entry id j.entries es
  snapshots : Table.Lists .snapshot id j.snapshots ss

inductive Write
  | append (stamp seq : Nat) (payload : String)
  | save (stamp seq : Nat) (payload : String)
  | prune (below : Nat)

def Write.Fits : Write → Prop
  | .append stamp seq _ | .save stamp seq _ => stamp < UInt64.size ∧ seq < UInt64.size
  | .prune below => below < UInt64.size

instance (w : Write) : Decidable w.Fits :=
  match w with
  | .append stamp seq _ | .save stamp seq _ =>
    inferInstanceAs (Decidable (stamp < UInt64.size ∧ seq < UInt64.size))
  | .prune below => inferInstanceAs (Decidable (below < UInt64.size))

def write (j : Journal) (id : String) : Write → Journal
  | .append stamp seq payload => (j.append stamp id seq payload).toOption.getD j
  | .save stamp seq payload => (j.save stamp id seq payload).toOption.getD j
  | .prune below => (j.prune id below).1

def put (j : Journal) (kind : RecordKind) (id : String) (seq : Nat) (text : String) : Journal :=
  match kind with
  | .entry => { j with entries := j.entries.insert (recordKey id seq) text }
  | .snapshot => { j with snapshots := j.snapshots.insert (recordKey id seq) text }

inductive Elsewhere (id : String) (j : Journal) : Journal → Prop
  | write {q : String} (w : Write) : Unrelated id q → w.Fits → Elsewhere id j (j.write q w)
  | put {q : String} {seq : Nat} (kind : RecordKind) (text : String) :
    Unrelated id q → seq < UInt64.size → Elsewhere id j (j.put kind q seq text)

/-- Journals whose records of `id` were made by appending, saving and pruning, and whose other ids are
unrelated to `id`. -/
inductive PrivateTo (id : String) : Journal → Prop
  | empty : PrivateTo id .empty
  | own {j : Journal} (w : Write) : PrivateTo id j → w.Fits → PrivateTo id (j.write id w)
  | elsewhere {j j' : Journal} : PrivateTo id j → Elsewhere id j j' → PrivateTo id j'

/-- An entry that is taken is put into the table. -/
theorem append_put (j : Journal) (id : String) (stamp seq : Nat) (payload : String) :
    j.append stamp id seq payload = (j.append stamp id seq payload).map fun _ =>
      j.put .entry id seq (Record.toJson .entry ⟨id, seq, payload, stamp⟩) := by
  simp only [Journal.append, bind, Except.bind]
  by_cases hid : id = ""
  · simp only [hid, if_true]
    rfl
  · simp only [hid, if_false]
    cases decodeLast .entry (j.entries.inRange (.ofId id)) with
    | error e => rfl
    | ok last =>
      cases last with
      | none => rfl
      | some last =>
        simp only
        split <;> rfl

theorem save_eq {id : String} (hid : id ≠ "") (j : Journal) (stamp seq : Nat) (payload : String) :
    j.save stamp id seq payload = .ok (j.put .snapshot id seq
      (Record.toJson .snapshot ⟨id, seq, payload, stamp⟩)) := by
  simp only [Journal.save, hid, if_false]
  rfl

/-- A write changes nothing, puts a record of its id into a table, or prunes. -/
theorem write_cases (j : Journal) (id : String) {w : Write} (hw : w.Fits) :
    j.write id w = j ∨
    (∃ (kind : RecordKind) (r : Record), r.id = id ∧ r.Fits ∧ j.write id w = j.put kind id r.seq (r.toJson kind)) ∨
    ∃ below, below < UInt64.size ∧ j.write id w = (j.prune id below).1 := by
  cases w with
  | append stamp seq payload =>
    rw [write, append_put]
    cases j.append stamp id seq payload with
    | error e => exact Or.inl rfl
    | ok j' => exact Or.inr (Or.inl ⟨.entry, ⟨id, seq, payload, stamp⟩, rfl, ⟨hw.2, hw.1⟩, rfl⟩)
  | save stamp seq payload =>
    by_cases hid : id = ""
    · subst hid
      exact Or.inl rfl
    · rw [write, save_eq hid]
      exact Or.inr (Or.inl ⟨.snapshot, ⟨id, seq, payload, stamp⟩, rfl, ⟨hw.2, hw.1⟩, rfl⟩)
  | prune below => exact Or.inr (Or.inr ⟨below, hw, rfl⟩)

namespace Ledger
variable {id : String} {j : Journal} {es ss : List Record}

theorem replay (h : Ledger id j es ss) : j.replay id = .ok es := h.entries.decodeAll

theorem load (h : Ledger id j es ss) : j.load id = .ok ss.getLast? := h.snapshots.decodeLast

/-- An entry above all others is taken. -/
theorem append_eq (h : Ledger id j es ss) (hid : id ≠ "") {seq : Nat}
    (habove : ∀ r ∈ es, r.seq < seq) (stamp : Nat) (payload : String) :
    j.append stamp id seq payload = .ok (j.put .entry id seq
      (Record.toJson .entry ⟨id, seq, payload, stamp⟩)) := by
  have hlast := h.entries.decodeLast
  simp only [Journal.append, hid, hlast, if_false, bind, Except.bind]
  cases hl : es.getLast? with
  | none => rfl
  | some last =>
    have := habove last (List.mem_of_getLast? hl)
    simp only [Nat.not_le.mpr this, if_false]
    rfl

/-- An entry that is not above the last one is refused. -/
theorem append_refused (h : Ledger id j es ss) (hid : id ≠ "") {seq : Nat} {last : Record}
    (hl : es.getLast? = some last) (hseq : seq ≤ last.seq) (stamp : Nat) (payload : String) :
    j.append stamp id seq payload = refuse ("seq " ++ Text.decimal seq ++
      " is not above stored seq " ++ Text.decimal last.seq ++ " for " ++ id) := by
  have hlast := h.entries.decodeLast
  simp only [Journal.append, hid, hlast, hl, hseq, if_false, if_true, bind, Except.bind]
  rfl

/-- Appending keeps the ledger, with the entry last if it was taken. -/
theorem append (h : Ledger id j es ss) {stamp seq : Nat} (hstamp : stamp < UInt64.size)
    (hseq : seq < UInt64.size) (habove : ∀ r ∈ es, r.seq < seq) (payload : String) :
    Ledger id (j.put .entry id seq (Record.toJson .entry ⟨id, seq, payload, stamp⟩))
      (es ++ [⟨id, seq, payload, stamp⟩]) ss where
  entries := by
    rw [← Record.place_above habove]
    exact h.entries.insert (r := ⟨id, seq, payload, stamp⟩) rfl ⟨hseq, hstamp⟩
  snapshots := h.snapshots

theorem save (h : Ledger id j es ss) {stamp seq : Nat} (hstamp : stamp < UInt64.size)
    (hseq : seq < UInt64.size) (payload : String) :
    Ledger id (j.put .snapshot id seq (Record.toJson .snapshot ⟨id, seq, payload, stamp⟩))
      es (Record.place ⟨id, seq, payload, stamp⟩ ss) where
  entries := h.entries
  snapshots := h.snapshots.insert (r := ⟨id, seq, payload, stamp⟩) rfl ⟨hseq, hstamp⟩

theorem prune (h : Ledger id j es ss) {below : Nat} (hb : below < UInt64.size) :
    Ledger id (j.prune id below).1 (es.filter (below ≤ ·.seq)) (ss.filter (below ≤ ·.seq)) where
  entries := h.entries.removeBelow hb
  snapshots := h.snapshots.removeBelow hb

theorem write (h : Ledger id j es ss) {w : Write} (hw : w.Fits) :
    ∃ es' ss', Ledger id (j.write id w) es' ss' := by
  by_cases hid : id = ""
  · subst hid
    cases w with
    | append stamp seq payload => exact ⟨es, ss, h⟩
    | save stamp seq payload => exact ⟨es, ss, h⟩
    | prune below => exact ⟨_, _, h.prune hw⟩
  cases w with
  | append stamp seq payload =>
    obtain habove | ⟨last, hl, hseq⟩ := h.entries.above_or seq
    · rw [Journal.write, h.append_eq hid habove stamp payload]
      exact ⟨_, _, h.append hw.1 hw.2 habove payload⟩
    · rw [Journal.write, h.append_refused hid hl hseq stamp payload]
      exact ⟨es, ss, h⟩
  | save stamp seq payload =>
    rw [Journal.write, save_eq hid]
    exact ⟨_, _, h.save hw.1 hw.2 payload⟩
  | prune below => exact ⟨_, _, h.prune hw⟩

theorem put_unrelated (h : Ledger id j es ss) {q : String} {seq : Nat} (kind : RecordKind)
    (text : String) (hq : Unrelated id q) (hseq : seq < UInt64.size) :
    Ledger id (j.put kind q seq text) es ss := by
  cases kind with
  | entry => exact ⟨h.entries.insert_unrelated hq hseq text, h.snapshots⟩
  | snapshot => exact ⟨h.entries, h.snapshots.insert_unrelated hq hseq text⟩

/-- What is done elsewhere leaves the records of an id as they are. -/
theorem elsewhere (h : Ledger id j es ss) {j' : Journal} (hj : Elsewhere id j j') :
    Ledger id j' es ss := by
  cases hj with
  | put kind text hq hseq => exact h.put_unrelated kind text hq hseq
  | @write q w hq hw =>
    obtain he | ⟨kind, r, -, hr, he⟩ | ⟨below, hb, he⟩ := write_cases j q hw
    · rwa [he]
    · rw [he]
      exact h.put_unrelated kind _ hq hr.seq
    · rw [he]
      exact ⟨h.entries.removeBelow_unrelated hq hb, h.snapshots.removeBelow_unrelated hq hb⟩

end Ledger

/-- A private journal has a ledger. -/
theorem PrivateTo.ledger {id : String} {j : Journal} (h : PrivateTo id j) :
    ∃ es ss, Ledger id j es ss := by
  induction h with
  | empty => exact ⟨[], [], .empty, .empty⟩
  | own w _ hw ih =>
    obtain ⟨es, ss, h⟩ := ih
    exact h.write hw
  | elsewhere _ hj ih =>
    obtain ⟨es, ss, h⟩ := ih
    exact ⟨es, ss, h.elsewhere hj⟩

end Journal
end HealthSignal
