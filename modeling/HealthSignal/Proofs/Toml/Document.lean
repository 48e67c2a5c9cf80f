import HealthSignal.Proofs.Toml.Lines
import Mathlib.Data.List.Nodup

/-! Plain documents as they are written and read back: every table with its scalars first. -/
namespace HealthSignal.Toml

namespace Plain

/-- A value that can be written: its tables are nested at most `room` deep, the keys of one table are different, and
its numbers are in range. -/
inductive Fits : (room : Nat) → Plain → Prop
  | scalar {room : Nat} {p : Plain} (h : p.IsScalar) : Fits room p
  | table {room : Nat} {members : Members} (hkeys : (members.map Prod.fst).Nodup)
      (hmembers : ∀ member ∈ members, Fits room member.2) : Fits (room + 1) (.table members)

def scalarItems (members : Members) : Items :=
  members.filterMap fun (key, p) => p.scalar?.map fun _ => (key, .value p.toValue)

mutual

def tableItem (key : String) : Plain → Items
  | .table members => [(key, .table .header (scalarItems members ++ tableItems members))]
  | _ => []

def tableItems : List (String × Plain) → Items
  | [] => []
  | (key, p) :: rest => tableItem key p ++ tableItems rest

end

theorem Fits.of_scalars {room : Nat} {members : Members} (hkeys : (members.map Prod.fst).Nodup)
    (h : ∀ member ∈ members, member.2.IsScalar) : Fits (room + 1) (.table members) :=
  .table hkeys fun member hmem => .scalar (h member hmem)

theorem Fits.isScalar {room : Nat} {p : Plain} (h : p.Fits room) (hp : p.scalar?.isSome = true) : p.IsScalar := by
  cases h with
  | scalar h => exact h
  | table _ _ => cases hp

theorem lookup_scalarItems {members : Members} (hkeys : (members.map Prod.fst).Nodup) {member : String × Plain}
    (hmem : member ∈ members) (htable : member.2.scalar? = none) :
    (scalarItems members).lookup member.1 = none := by
  rw [List.lookup_eq_none_iff]
  intro item hitem
  obtain ⟨other, hother, hscalar⟩ := List.mem_filterMap.mp hitem
  obtain ⟨cs, hcs, rfl⟩ := Option.map_eq_some_iff.mp hscalar
  have hne : member.1 ≠ other.1 := by
    intro heq
    rw [List.inj_on_of_nodup_map hkeys hmem hother heq, hcs] at htable
    cases htable
  simpa using hne

theorem lookup_append_tableItem {items : Items} {key other : String} (h : items.lookup other = none)
    (hne : other ≠ key) (p : Plain) : (items ++ tableItem key p).lookup other = none := by
  rw [List.lookup_append, h, Option.none_or]
  cases p with
  | table members => simp [tableItem, hne]
  | _ => rfl

theorem ne_of_not_mem_keys {members : Members} {key : String} (h : key ∉ members.map Prod.fst)
    {member : String × Plain} (hmem : member ∈ members) : member.1 ≠ key := by
  rintro rfl
  exact h (List.mem_map_of_mem hmem)

end Plain

namespace Draft
open Plain (Members Fits scalarItems tableItem tableItems scalarLines blocks tableBlocks)

variable {path : List String} {put : Items → Items} {members : Members} {room : Nat}

/-- The scalars of a table are added to what it holds. -/
theorem lines_scalarLines (hput : Items.Places path put) (hkeys : (members.map Prod.fst).Nodup)
    (hmembers : ∀ member ∈ members, member.2.Fits room) {items : Items}
    (hnew : ∀ member ∈ members, items.lookup member.1 = none) (rest : List Char) :
    lines ⟨put items, path⟩ (scalarLines members ++ rest) =
      lines ⟨put (items ++ scalarItems members), path⟩ rest := by
  induction members generalizing items with
  | nil => simp [scalarLines, scalarItems]
  | cons member members ih =>
    obtain ⟨key, p⟩ := member
    rw [List.map_cons, List.nodup_cons] at hkeys
    rw [List.forall_mem_cons] at hmembers hnew
    cases hp : p.scalar? with
    | none =>
      have hlines : scalarLines ((key, p) :: members) = scalarLines members := by simp [scalarLines, hp]
      have hitems : scalarItems ((key, p) :: members) = scalarItems members := by simp [scalarItems, hp]
      rw [hlines, hitems, ih hkeys.2 hmembers.2 hnew.2]
    | some cs =>
      have hlines : scalarLines ((key, p) :: members) ++ rest =
          Plain.writeKey key ++ ' ' :: '=' :: ' ' :: (cs ++ '\n' :: (scalarLines members ++ rest)) := by
        simp [scalarLines, hp]
      have hitems : scalarItems ((key, p) :: members) = [(key, .value p.toValue)] ++ scalarItems members := by
        simp [scalarItems, hp]
      have hscalar : p.IsScalar := hmembers.1.isScalar (by rw [hp]; rfl)
      have hdefine : (put items).update (Items.define p.toValue [] key) path =
          .ok (put (items ++ [(key, .value p.toValue)])) := by
        rw [hput, Items.define, if_neg (by simp [hnew.1])]
        rfl
      have hnext : ∀ member ∈ members, (items ++ [(key, Item.value p.toValue)]).lookup member.1 = none := by
        intro member hmem
        simp [List.lookup_append, hnew.2 member hmem, Plain.ne_of_not_mem_keys hkeys.1 hmem]
      rw [hlines, lines_scalar hscalar hp hdefine, ih hkeys.2 hmembers.2 hnext, hitems, List.append_assoc]

/-- A block is read before the blocks that follow it. -/
theorem lines_block {d d' : Draft} {block : List Char} (h : ∀ rest, d.lines (block ++ rest) = d'.lines rest)
    (bs : List (List Char)) :
    d.lines (List.intercalate ['\n'] (block :: bs)) = d'.lines (List.intercalate ['\n'] bs) := by
  cases bs with
  | nil =>
    have hlast := h []
    rw [List.append_nil] at hlast
    rw [List.intercalate_singleton, List.intercalate_nil, hlast]
  | cons b bs =>
    rw [List.intercalate_cons_cons, List.append_assoc, h, List.singleton_append, lines_blank]

/-- The blocks of a value are read into the table at a path, whichever table was being filled. -/
def BlocksRead (room : Nat) (key : String) (p : Plain) : Prop :=
  ∀ {path : List String} {put : Items → Items} {items : Items}, Items.Places path put →
    path.length + room ≤ maxParts → (p.scalar? = none → items.lookup key = none) →
    ∀ (current : List String) (bs : List (List Char)), ∃ after,
      lines ⟨put items, current⟩ (List.intercalate ['\n'] (blocks (path ++ [key]) p ++ bs)) =
        lines ⟨put (items ++ tableItem key p), after⟩ (List.intercalate ['\n'] bs)

theorem lines_tableBlocks (hput : Items.Places path put) (hroom : path.length + room ≤ maxParts)
    (hkeys : (members.map Prod.fst).Nodup) (hmembers : ∀ member ∈ members, BlocksRead room member.1 member.2)
    {items : Items} (hnew : ∀ member ∈ members, member.2.scalar? = none → items.lookup member.1 = none)
    (current : List String) (bs : List (List Char)) :
    ∃ after, lines ⟨put items, current⟩ (List.intercalate ['\n'] (tableBlocks path members ++ bs)) =
      lines ⟨put (items ++ tableItems members), after⟩ (List.intercalate ['\n'] bs) := by
  induction members generalizing items current with
  | nil => exact ⟨current, by simp [tableBlocks, tableItems]⟩
  | cons member members ih =>
    obtain ⟨key, p⟩ := member
    rw [List.map_cons, List.nodup_cons] at hkeys
    rw [List.forall_mem_cons] at hmembers hnew
    obtain ⟨middle, hfirst⟩ := hmembers.1 hput hroom hnew.1 current (tableBlocks path members ++ bs)
    have hnext : ∀ member ∈ members, member.2.scalar? = none →
        (items ++ tableItem key p).lookup member.1 = none := by
      intro member hmem htable
      exact Plain.lookup_append_tableItem (hnew.2 member hmem htable) (Plain.ne_of_not_mem_keys hkeys.1 hmem) p
    obtain ⟨after, hrest⟩ := ih hkeys.2 hmembers.2 hnext middle
    refine ⟨after, ?_⟩
    rw [tableBlocks, tableItems, List.append_assoc, hfirst, hrest, List.append_assoc]

theorem blocksRead {p : Plain} (h : p.Fits room) (key : String) : BlocksRead room key p := by
  induction h generalizing key with
  | scalar h =>
    intro path put items hput hroom hnew current bs
    refine ⟨current, ?_⟩
    cases h <;> simp [blocks, tableItem]
  | @table room members hkeys hmembers ih =>
    intro path put items hput hroom hnew current bs
    have hopen : (put items).update (Items.openTable key) path = .ok (put (items ++ [(key, .table .header [])])) := by
      rw [hput, Items.openTable, hnew rfl]
      rfl
    have hchild := hput.child (hnew rfl)
    have hblock (rest : List Char) :
        lines ⟨put items, current⟩ (Plain.header (path ++ [key]) ++ scalarLines members ++ rest) =
          lines ⟨put (items ++ [(key, .table .header (scalarItems members))]), path ++ [key]⟩ rest := by
      rw [List.append_assoc, lines_header (by omega) hopen]
      exact lines_scalarLines hchild hkeys hmembers (by simp) rest
    obtain ⟨after, hrest⟩ := lines_tableBlocks hchild (by simp; omega) hkeys
      (fun member hmem => ih member hmem member.1)
      (fun member hmem => Plain.lookup_scalarItems hkeys hmem) (path ++ [key]) bs
    refine ⟨after, ?_⟩
    rw [blocks, List.cons_append, lines_block hblock, hrest, tableItem]

end Draft

/-! ### The whole of a document -/

theorem Items.toTable_append (items more : Items) : toTable (items ++ more) = toTable items ++ toTable more := by
  induction items with
  | nil => rfl
  | cons item items ih => rw [List.cons_append, toTable, toTable, ih, List.cons_append]

namespace Plain

def written (members : Members) : Table := Items.toTable (scalarItems members ++ tableItems members)

/-! A table of scalars is read as it is. -/

theorem toTable_append (members more : Members) : toTable (members ++ more) = toTable members ++ toTable more := by
  induction members with
  | nil => rfl
  | cons member members ih => rw [List.cons_append, toTable, toTable, ih, List.cons_append]

theorem tableItems_append (members more : Members) :
    tableItems (members ++ more) = tableItems members ++ tableItems more := by
  induction members with
  | nil => rfl
  | cons member members ih => rw [List.cons_append, tableItems, tableItems, ih, List.append_assoc]

theorem toTable_scalarItems {members : Members} (h : ∀ member ∈ members, member.2.IsScalar) :
    Items.toTable (scalarItems members) = toTable members := by
  induction members with
  | nil => rfl
  | cons member members ih =>
    rw [List.forall_mem_cons] at h
    obtain ⟨cs, hcs, -⟩ := h.1.reads
    have hitems : scalarItems (member :: members) = (member.1, .value member.2.toValue) :: scalarItems members := by
      simp [scalarItems, hcs]
    rw [hitems, Items.toTable, ih h.2, Item.toValue, toTable]

theorem tableItems_of_scalars {members : Members} (h : ∀ member ∈ members, member.2.IsScalar) :
    tableItems members = [] := by
  induction members with
  | nil => rfl
  | cons member members ih =>
    rw [List.forall_mem_cons] at h
    obtain ⟨key, p⟩ := member
    have hitem : tableItem key p = [] := by
      cases h.1 <;> rfl
    rw [tableItems, hitem, ih h.2, List.nil_append]

theorem written_of_scalars {members : Members} (h : ∀ member ∈ members, member.2.IsScalar) :
    written members = toTable members := by
  rw [written, tableItems_of_scalars h, List.append_nil, toTable_scalarItems h]

/-- A table among scalars is read after them. -/
theorem written_of_table {before after : Members} (hbefore : ∀ member ∈ before, member.2.IsScalar)
    (hafter : ∀ member ∈ after, member.2.IsScalar) (key : String) (members : Members) :
    written (before ++ [(key, .table members)] ++ after) =
      toTable (before ++ after) ++ [(key, .table (written members))] := by
  have hscalars : ∀ member ∈ before ++ after, member.2.IsScalar :=
    List.forall_mem_append.mpr ⟨hbefore, hafter⟩
  have hitems : scalarItems (before ++ [(key, .table members)] ++ after) = scalarItems (before ++ after) := by
    simp [scalarItems, scalar?]
  have htables : tableItems (before ++ [(key, .table members)] ++ after) = tableItem key (.table members) := by
    rw [tableItems_append, tableItems_append, tableItems_of_scalars hbefore, tableItems_of_scalars hafter]
    rfl
  rw [written, hitems, htables, Items.toTable_append, toTable_scalarItems hscalars]
  rfl

/-- A text that can be read as it is has no byte order mark. -/
theorem dropMark_of_lines {d d' : Draft} {cs : List Char} (h : d.lines cs = .ok d') : dropMark cs = cs := by
  unfold dropMark
  split
  · next rest =>
    have hpair : d.pair ('\ufeff' :: rest) = .error .key := by
      rw [Draft.pair, readPair, readKey_eq_none (by decide) (by decide) (by decide)]
      rfl
    rw [Draft.lines, skipBlanks_cons (by decide)] at h
    simp [newline?, hpair] at h
  · rfl

/-- A plain document reads back as what was written. -/
theorem parse_render {members : Members} (hkeys : (members.map Prod.fst).Nodup)
    (hfits : ∀ member ∈ members, member.2.Fits maxParts) : parse (render members) = .ok (written members) := by
  have hscalars (rest : List Char) :
      Draft.lines ⟨[], []⟩ (scalarLines members ++ rest) = Draft.lines ⟨scalarItems members, []⟩ rest :=
    Draft.lines_scalarLines Items.places_root hkeys hfits (by simp) rest
  obtain ⟨after, htables⟩ := Draft.lines_tableBlocks Items.places_root (Nat.le_of_eq (Nat.zero_add _)) hkeys
    (fun member hmem => Draft.blocksRead (hfits member hmem) member.1)
    (fun member hmem => lookup_scalarItems hkeys hmem) [] []
  rw [List.append_nil, List.intercalate_nil, Draft.lines_nil] at htables
  have hread : Draft.lines ⟨[], []⟩ (render members).toList =
      .ok ⟨scalarItems members ++ tableItems members, after⟩ := by
    rw [render, String.toList_ofList]
    split
    · next hempty =>
      rw [hempty] at hscalars
      exact (hscalars _).trans htables
    · exact (Draft.lines_block hscalars _).trans htables
  rw [parse, dropMark_of_lines hread, hread]
  rfl

end Plain
end HealthSignal.Toml
