import HealthSignal.Proofs.Toml.Scalar

/-! Written lines: where the table is that a line adds to, and what reading the line does there. -/
namespace HealthSignal.Toml
open Text (Stops stops_cons)

/-! ### Tables -/

namespace Items

theorem update_append (f : Items → Except SyntaxError Items) (path : List String) (key : String) (items : Items) :
    update f (path ++ [key]) items = update (update f [key]) path items := by
  induction path generalizing items with
  | nil => rfl
  | cons first path ih =>
    rw [List.cons_append, update, update]
    split
    · rw [ih]
    · rw [ih]
    · split
      · rw [ih]
      · rfl
    · rfl

/-- The last member of a table, changed. -/
theorem update_last {items : Items} {key : String} (hkey : items.lookup key = none)
    (f : Items → Except SyntaxError Items) (origin : Origin) (sub : Items) :
    update f [key] (items ++ [(key, .table origin sub)]) =
      (f sub).map fun sub => items ++ [(key, .table origin sub)] := by
  have hreplace : ∀ item, replace key item (items ++ [(key, .table origin sub)]) = items ++ [(key, item)] := by
    intro item
    have hkept : replace key item items = items := by
      refine (List.map_congr_left fun p hp => ?_).trans (List.map_id items)
      have hlookup := List.lookup_eq_none_iff.mp hkey p hp
      have hne : p.1 ≠ key := by
        intro heq
        simp [heq] at hlookup
      exact if_neg hne
    have happend : replace key item (items ++ [(key, .table origin sub)]) =
        replace key item items ++ replace key item [(key, .table origin sub)] := List.map_append
    rw [happend, hkept]
    simp [replace]
  have hlast : (items ++ [(key, Item.table origin sub)]).lookup key = some (.table origin sub) := by
    simp [List.lookup_append, hkey]
  rw [update, hlast]
  simp only [update, hreplace]
  cases f sub <;> rfl

/-- Where the table at a path stands: `put` fills it with items, and to change it is to change what it is
filled with. -/
def Places (path : List String) (put : Items → Items) : Prop :=
  ∀ f items, update f path (put items) = (f items).map put

theorem places_root : Places [] id := by
  intro f items
  rw [id_eq, update, Except.map_id, id_eq]

/-- A table that is put after what its parent holds. -/
theorem Places.child {path : List String} {put : Items → Items} (h : Places path put) {key : String} {items : Items}
    (hkey : items.lookup key = none) :
    Places (path ++ [key]) fun sub => put (items ++ [(key, .table .header sub)]) := by
  intro f sub
  rw [update_append, h, update_last hkey]
  cases f sub <;> rfl

end Items

/-! ### Lines -/

namespace Draft

theorem lines_nil (d : Draft) : d.lines [] = .ok d := by
  rw [lines]
  rfl

theorem lines_blank (d : Draft) (rest : List Char) : d.lines ('\n' :: rest) = d.lines rest := by
  rw [lines, skipBlanks_cons (by decide)]
  simp [newline?]

theorem readPair_scalar {p : Plain} {cs : List Char} (hp : p.IsScalar) (hcs : p.scalar? = some cs) (key : String)
    (rest : List Char) :
    readPair (readValue maxDepth) (Plain.writeKey key ++ ' ' :: '=' :: ' ' :: (cs ++ '\n' :: rest)) =
      .ok (([], key, p.toValue), '\n' :: rest) := by
  obtain ⟨cs', hcs', hread⟩ := hp.reads
  obtain rfl : cs = cs' := Option.some.inj (hcs.symm.trans hcs')
  have hafter : skipBlanks (' ' :: '=' :: ' ' :: (cs ++ '\n' :: rest)) = '=' :: ' ' :: (cs ++ '\n' :: rest) := rfl
  have hvalue : skipBlanks (' ' :: (cs ++ '\n' :: rest)) = skipBlanks (cs ++ '\n' :: rest) := rfl
  have hroom : ([] : List String).length < maxParts := Nat.zero_lt_succ _
  have hstop : Stops isBare (' ' :: '=' :: ' ' :: (cs ++ '\n' :: rest)) := stops_cons (by decide) _
  have hkey := readKey_writeKeys hroom key hstop (by simp [hafter])
  rw [List.nil_append, List.map_cons, List.map_nil, List.intercalate_singleton, hafter] at hkey
  rw [readPair, hkey]
  simp only
  rw [hvalue, hread]

/-- A line that is a key with a value. -/
theorem lines_pair {d d' : Draft} {c : Char} {tail rest : List Char} (hc : isBare c = true ∨ c = '"')
    (hpair : d.pair (c :: tail) = .ok (d', rest)) (hlt : rest.length < (c :: tail).length) :
    d.lines (c :: tail) = d'.lines rest := by
  obtain ⟨hhash, hbracket, hline, hreturn, hblank⟩ :
      c ≠ '#' ∧ c ≠ '[' ∧ c ≠ '\n' ∧ c ≠ '\r' ∧ isBlank c = false := by
    obtain hc | rfl := hc
    · exact ⟨ne_of_isBare hc (by decide), ne_of_isBare hc (by decide), ne_of_isBare hc (by decide),
        ne_of_isBare hc (by decide), isBlank_of_isBare hc⟩
    · decide
  have hnewline : newline? (c :: tail) = none := by
    unfold newline?
    split
    · next heq => exact absurd (List.cons.inj heq).1 hline
    · next heq => exact absurd (List.cons.inj heq).1 hreturn
    · rfl
  rw [lines, skipBlanks_cons hblank]
  simp only [hhash, hbracket, hnewline, hpair, if_false, if_pos hlt]

theorem lines_scalar {d : Draft} {p : Plain} {cs : List Char} (hp : p.IsScalar) (hcs : p.scalar? = some cs)
    {key : String} {items : Items} (hitems : d.items.update (Items.define p.toValue [] key) d.path = .ok items)
    (rest : List Char) :
    d.lines (Plain.writeKey key ++ ' ' :: '=' :: ' ' :: (cs ++ '\n' :: rest)) = lines ⟨items, d.path⟩ rest := by
  have hpair : d.pair (Plain.writeKey key ++ ' ' :: '=' :: ' ' :: (cs ++ '\n' :: rest)) =
      .ok (⟨items, d.path⟩, rest) := by
    rw [pair, readPair_scalar hp hcs]
    have hend : lineEnd ('\n' :: rest) = some rest := rfl
    simp only [bind, Except.bind, hend, hitems]
    rfl
  obtain ⟨c, tail, hkey, hc⟩ := exists_writeKey key
  rw [hkey, List.cons_append] at hpair ⊢
  exact lines_pair hc hpair (by simp; omega)

theorem lines_header {d : Draft} {path : List String} {key : String} (hroom : path.length < maxParts) {items : Items}
    (hitems : d.items.update (Items.openTable key) path = .ok items) (rest : List Char) :
    d.lines (Plain.header (path ++ [key]) ++ rest) = lines ⟨items, path ++ [key]⟩ rest := by
  let keys := List.intercalate ['.'] ((path ++ [key]).map Plain.writeKey)
  have htext : Plain.header (path ++ [key]) ++ rest = '[' :: (keys ++ ']' :: '\n' :: rest) := by
    simp [Plain.header, keys]
  have hkey : readKey (keys ++ ']' :: '\n' :: rest) = some ((path, key), ']' :: '\n' :: rest) :=
    readKey_writeKeys hroom key (stops_cons (by decide) _) (by simp [skipBlanks, isBlank])
  -- No key begins with a bracket, so the header is not that of an array of tables.
  have hsingle : ∀ after, '[' :: (keys ++ ']' :: '\n' :: rest) ≠ '[' :: '[' :: after := by
    intro after heq
    rw [(List.cons.inj heq).2, readKey_eq_none (by decide) (by decide) (by decide)] at hkey
    cases hkey
  have hheader : d.header ('[' :: (keys ++ ']' :: '\n' :: rest)) = .ok (⟨items, path ++ [key]⟩, rest) := by
    have hend : lineEnd ('\n' :: rest) = some rest := rfl
    rw [header]
    · simp only [List.drop_succ_cons, List.drop_zero, hkey, headerEnd, hend, Bool.false_eq_true, if_false, hitems]
      rfl
    · exact hsingle
  rw [htext, lines, skipBlanks_cons (by decide)]
  simp only [hheader, show ('[' : Char) ≠ '#' by decide, if_false, if_true]
  rw [if_pos (by simp; omega)]

end Draft
end HealthSignal.Toml
