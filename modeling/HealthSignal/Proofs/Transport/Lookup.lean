import HealthSignal.Proofs.Transport.Sight

/-! Looking up paths. What a path leads to depends on what is seen at places, and where it leads on its names
alone; what is found stays found as long as no directory goes. -/
namespace HealthSignal

def onward (q : Place) (name : String) : Place := if name = ".." then q.dropLast else q ++ [name]

def Path.place (p : Path) : Place := p.names.foldl onward []

/-- A path that ends in dots, or has no names, leads to a directory and names no entry of one. -/
def Path.Dotted (p : Path) : Prop := p.names = [] ∨ p.ending = .dot ∨ ∃ names, p.names = names ++ [".."]

namespace FileTree

def enter (see : Place → Option Sight) (q : Place) (name : String) : Except IoError Place :=
  if name = ".." then .ok q.dropLast
  else do
    checkName name
    match see (q ++ [name]) with
    | some .directory => .ok (q ++ [name])
    | some (.file _) => .error .notADirectory
    | none => .error .notFound

def follow (see : Place → Option Sight) (q : Place) (names : List String) : Except IoError Place :=
  names.foldlM (enter see) q

section Follow
variable {see see' : Place → Option Sight} {q r : Place} {name : String} {names : List String} {e : IoError}

inductive Entering (see : Place → Option Sight) (q : Place) (name : String) : Except IoError Place → Prop
  | up : name = ".." → Entering see q name (.ok q.dropLast)
  | down : name ≠ ".." → checkName name = .ok () → see (q ++ [name]) = some .directory →
    Entering see q name (.ok (q ++ [name]))
  | long : name ≠ ".." → checkName name = .error .nameTooLong → Entering see q name (.error .nameTooLong)
  | blocked {content : Option String} : name ≠ ".." → checkName name = .ok () →
    see (q ++ [name]) = some (.file content) → Entering see q name (.error .notADirectory)
  | missing : name ≠ ".." → checkName name = .ok () → see (q ++ [name]) = none →
    Entering see q name (.error .notFound)

theorem checkName_cases (name : String) : checkName name = .ok () ∨ checkName name = .error .nameTooLong := by
  unfold checkName
  split
  · exact Or.inr rfl
  · exact Or.inl rfl

theorem entering (see : Place → Option Sight) (q : Place) (name : String) :
    Entering see q name (enter see q name) := by
  unfold enter
  split
  · next hup => exact .up hup
  · next hup =>
    obtain hcheck | hcheck := checkName_cases name
    · rw [hcheck]
      cases hs : see (q ++ [name]) with
      | none => exact .missing hup hcheck hs
      | some s =>
        cases s with
        | file content => exact .blocked hup hcheck hs
        | directory => exact .down hup hcheck hs
    · rw [hcheck]
      exact .long hup hcheck

theorem follow_nil : follow see q [] = .ok q := rfl

theorem follow_cons : follow see q (name :: names) = (enter see q name).bind (follow see · names) := rfl

theorem follow_concat : follow see q (names ++ [name]) = (follow see q names).bind (enter see · name) := by
  rw [follow, List.foldlM_append, ← follow]
  cases follow see q names with
  | error e => rfl
  | ok r => exact bind_pure (enter see r name)

theorem enter_ok (h : enter see q name = .ok r) : r = onward q name := by
  have hs := entering see q name
  rw [h] at hs
  cases hs with
  | up hup => exact (if_pos hup).symm
  | down hup => exact (if_neg hup).symm

theorem follow_ok (h : follow see q names = .ok r) : r = names.foldl onward q := by
  induction names generalizing q with
  | nil => exact (Except.ok.inj h).symm
  | cons name names ih =>
    rw [follow_cons] at h
    cases hs : enter see q name with
    | error e => simp [hs, Except.bind] at h
    | ok q' =>
      rw [hs] at h
      rw [List.foldl_cons, ← enter_ok hs]
      exact ih h

def KeepsDirectories (see see' : Place → Option Sight) : Prop :=
  ∀ q, see q = some .directory → see' q = some .directory

def KeepsAll (see see' : Place → Option Sight) : Prop := ∀ q s, see q = some s → see' q = some s

theorem KeepsAll.directories (h : KeepsAll see see') : KeepsDirectories see see' := fun q => h q .directory

theorem KeepsDirectories.update (hq : see q ≠ some .directory) (s : Option Sight) :
    KeepsDirectories see (Function.update see q s) := by
  intro q' hq'
  have hne : q' ≠ q := fun heq => hq (heq ▸ hq')
  rw [Function.update_of_ne hne]
  exact hq'

theorem KeepsAll.update (hq : see q = none) (s : Option Sight) : KeepsAll see (Function.update see q s) := by
  intro q' s' hq'
  have hne : q' ≠ q := fun heq => by simp [heq, hq] at hq'
  rw [Function.update_of_ne hne]
  exact hq'

theorem enter_mono (hk : KeepsDirectories see see') (h : enter see q name = .ok r) :
    enter see' q name = .ok r := by
  have hs := entering see q name
  rw [h] at hs
  unfold enter
  cases hs with
  | up hup => exact if_pos hup
  | down hup hcheck hsee =>
    rw [if_neg hup, hcheck, hk _ hsee]
    rfl

theorem follow_mono (hk : KeepsDirectories see see') (h : follow see q names = .ok r) :
    follow see' q names = .ok r := by
  induction names generalizing q with
  | nil => exact h
  | cons name names ih =>
    rw [follow_cons] at h ⊢
    cases hs : enter see q name with
    | error e => simp [hs, Except.bind] at h
    | ok q' =>
      rw [hs] at h
      rw [enter_mono hk hs]
      exact ih h

end Follow

/-! ### Trails -/

def Trail.Of (t : FileTree) : Trail → Prop
  | [] => True
  | (name, entries) :: w => t.node? (Trail.place ((name, entries) :: w)) = some (.directory entries) ∧ Trail.Of t w

section Walk
variable {t : FileTree} {w : Trail}

theorem Trail.place_cons (name : String) (entries : Entries) (w : Trail) :
    Trail.place ((name, entries) :: w) = Trail.place w ++ [name] := by
  simp [Trail.place]

theorem Trail.place_tail (w : Trail) : Trail.place w.tail = (Trail.place w).dropLast := by
  cases w with
  | nil => rfl
  | cons entry w => rw [Trail.place_cons, List.dropLast_concat, List.tail_cons]

theorem Trail.Of.tail (h : Trail.Of t w) : Trail.Of t w.tail := by
  cases w with
  | nil => exact h
  | cons entry w => exact h.2

theorem Trail.Of.holds (h : Trail.Of t w) : t.node? (Trail.place w) = some (.directory (t.holds w)) := by
  cases w with
  | nil => rfl
  | cons entry w => exact h.1

/-- A trail follows names as they are seen. -/
theorem walk_cases (h : Trail.Of t w) (names : List String) :
    (∃ w', t.walk w names = .ok w' ∧ Trail.Of t w' ∧ follow t.sight? (Trail.place w) names = .ok (Trail.place w')) ∨
      ∃ e, t.walk w names = .error e ∧ follow t.sight? (Trail.place w) names = .error e := by
  induction names generalizing w with
  | nil => exact Or.inl ⟨w, rfl, h, rfl⟩
  | cons name names ih =>
    rw [walk, follow_cons]
    have hnode := node?_concat h.holds name
    have hsight : t.sight? (Trail.place w ++ [name]) = ((t.holds w).lookup name).map Node.sight :=
      congrArg (Option.map Node.sight) hnode
    have hs := entering t.sight? (Trail.place w) name
    generalize enter t.sight? (Trail.place w) name = next at hs
    cases hs with
    | up hup =>
      rw [if_pos hup, ← Trail.place_tail]
      exact ih h.tail
    | long hup hcheck =>
      rw [if_neg hup, hcheck]
      exact Or.inr ⟨_, rfl, rfl⟩
    | missing hup hcheck hsee =>
      rw [if_neg hup, hcheck]
      rw [hsight, Option.map_eq_none_iff] at hsee
      rw [hsee]
      exact Or.inr ⟨_, rfl, rfl⟩
    | blocked hup hcheck hsee =>
      rw [if_neg hup, hcheck]
      obtain ⟨n, hn, hfile⟩ := Option.map_eq_some_iff.mp (hsight.symm.trans hsee)
      cases n with
      | file content =>
        rw [hn]
        exact Or.inr ⟨_, rfl, rfl⟩
      | directory entries => simp [Node.sight] at hfile
    | down hup hcheck hsee =>
      rw [if_neg hup, hcheck]
      obtain ⟨n, hn, hdirectory⟩ := Option.map_eq_some_iff.mp (hsight.symm.trans hsee)
      cases n with
      | file content => simp [Node.sight] at hdirectory
      | directory entries =>
        rw [hn, ← Trail.place_cons name entries]
        exact ih ⟨by rw [Trail.place_cons, hnode, hn], h⟩

end Walk

/-! ### Paths -/

inductive Spot
  | directory (place : Place)
  | entry (dir : Place) (name : String)

def spot (see : Place → Option Sight) (p : Path) : Except IoError Spot := do
  p.check
  let whole : Except IoError Spot := return .directory (← follow see [] p.names)
  match p.names.getLast? with
  | none => whole
  | some name =>
    if p.ending = .dot ∨ name = ".." then whole
    else
      let dir ← follow see [] p.names.dropLast
      checkName name
      return .entry dir name

inductive Leads (t : FileTree) : Except IoError Target → Except IoError Spot → Prop
  | lost (e : IoError) : Leads t (.error e) (.error e)
  | directory (place : Place) : Leads t (.ok (.directory place)) (.ok (.directory place))
  | entry {dir : Place} {inner : Entries} (name : String) : t.node? dir = some (.directory inner) →
    Leads t (.ok (.entry dir name (inner.lookup name))) (.ok (.entry dir name))

theorem leads (t : FileTree) (p : Path) : Leads t (t.locate p) (spot t.sight? p) := by
  have hwalk := fun names => walk_cases (t := t) (w := []) trivial names
  have hwhole : Leads t (do return .directory (← t.walk [] p.names).place)
      (do return .directory (← follow t.sight? [] p.names)) := by
    obtain ⟨w, hw, -, hf⟩ | ⟨e, hw, hf⟩ := hwalk p.names
    · rw [hw, show follow t.sight? [] p.names = _ from hf]
      exact .directory _
    · rw [hw, show follow t.sight? [] p.names = _ from hf]
      exact .lost e
  unfold locate spot
  cases p.check with
  | error e => exact .lost e
  | ok =>
    cases p.names.getLast? with
    | none => exact hwhole
    | some name =>
      show Leads t (if _ then _ else _) (if _ then _ else _)
      split
      · exact hwhole
      · obtain ⟨w, hw, hof, hf⟩ | ⟨e, hw, hf⟩ := hwalk p.names.dropLast
        · rw [hw, show follow t.sight? [] p.names.dropLast = _ from hf]
          obtain hcheck | hcheck := checkName_cases name
          · rw [hcheck]
            exact .entry name hof.holds
          · rw [hcheck]
            exact .lost _
        · rw [hw, show follow t.sight? [] p.names.dropLast = _ from hf]
          exact .lost e

section Spot
variable {see see' : Place → Option Sight} {p : Path} {names : List String} {name : String}

theorem spot_dotted (hcheck : p.check = .ok ()) (hdots : p.Dotted) :
    spot see p = (follow see [] p.names).bind fun q => .ok (.directory q) := by
  unfold spot
  rw [hcheck]
  cases hlast : p.names.getLast? with
  | none => rfl
  | some name =>
    refine if_pos ?_
    obtain hnil | hdot | ⟨names, hup⟩ := hdots
    · simp [hnil] at hlast
    · exact Or.inl hdot
    · rw [hup, List.getLast?_concat] at hlast
      exact Or.inr (Option.some.inj hlast).symm

theorem spot_named (hcheck : p.check = .ok ()) (hnames : p.names = names ++ [name]) (hdot : p.ending ≠ .dot)
    (hup : name ≠ "..") : spot see p = (follow see [] names).bind fun dir =>
      (checkName name).bind fun _ => .ok (.entry dir name) := by
  unfold spot
  rw [hcheck, hnames, List.getLast?_concat, List.dropLast_concat]
  exact if_neg (not_or.mpr ⟨hdot, hup⟩)

inductive Spotting (see : Place → Option Sight) (p : Path) : Except IoError Spot → Prop
  | unfit {e : IoError} : p.check = .error e → Spotting see p (.error e)
  | dotted {q : Place} : p.check = .ok () → p.Dotted → follow see [] p.names = .ok q →
    Spotting see p (.ok (.directory q))
  | unled {names : List String} {e : IoError} : p.check = .ok () → names <+: p.names →
    follow see [] names = .error e → Spotting see p (.error e)
  | entry {names : List String} {name : String} {dir : Place} : p.check = .ok () → p.names = names ++ [name] →
    p.ending ≠ .dot → name ≠ ".." → follow see [] names = .ok dir → checkName name = .ok () →
    Spotting see p (.ok (.entry dir name))
  | long {names : List String} {name : String} {dir : Place} : p.check = .ok () → p.names = names ++ [name] →
    name ≠ ".." → follow see [] names = .ok dir → checkName name = .error .nameTooLong →
    Spotting see p (.error .nameTooLong)

theorem spotting (see : Place → Option Sight) (p : Path) : Spotting see p (spot see p) := by
  cases hcheck : p.check with
  | error e =>
    unfold spot
    rw [hcheck]
    exact .unfit hcheck
  | ok =>
    by_cases hdots : p.Dotted
    · rw [spot_dotted hcheck hdots]
      cases hf : follow see [] p.names with
      | ok q => exact .dotted hcheck hdots hf
      | error e => exact .unled hcheck (List.prefix_refl _) hf
    · obtain hnil | ⟨names, name, hnames⟩ := List.eq_nil_or_concat p.names
      · exact absurd (Or.inl hnil) hdots
      · rw [List.concat_eq_append] at hnames
        have hdot : p.ending ≠ .dot := fun h => hdots (Or.inr (Or.inl h))
        have hup : name ≠ ".." := fun h => hdots (Or.inr (Or.inr ⟨names, h ▸ hnames⟩))
        rw [spot_named hcheck hnames hdot hup]
        cases hf : follow see [] names with
        | error e => exact .unled hcheck (hnames ▸ List.prefix_append ..) hf
        | ok dir =>
          obtain hname | hname := checkName_cases name
          · rw [hname]
            exact .entry hcheck hnames hdot hup hf hname
          · rw [hname]
            exact .long hcheck hnames hup hf hname

theorem spot_mono (hk : KeepsDirectories see see') {x : Spot} (h : spot see p = .ok x) :
    spot see' p = .ok x := by
  have hs := spotting see p
  rw [h] at hs
  cases hs with
  | dotted hcheck hdots hf => rw [spot_dotted hcheck hdots, follow_mono hk hf]; rfl
  | entry hcheck hnames hdot hup hf hname => rw [spot_named hcheck hnames hdot hup, follow_mono hk hf, hname]; rfl

def Spot.place : Spot → Place
  | .directory place => place
  | .entry dir name => dir ++ [name]

/-- Where a path leads is up to its names. -/
theorem spot_place {x : Spot} (h : spot see p = .ok x) : x.place = p.place := by
  have hs := spotting see p
  rw [h] at hs
  cases hs with
  | dotted _ _ hf => exact follow_ok hf
  | entry _ hnames _ hup hf _ =>
    rw [Path.place, hnames, List.foldl_append, ← follow_ok hf]
    exact (if_neg hup).symm

end Spot

/-! ### What is found -/

/-- What is found at a path. A slash after the name of a file asks for a directory. -/
def stat (t : FileTree) (p : Path) : Except IoError Sight := do
  match ← t.locate p with
  | .directory _ => return .directory
  | .entry _ _ none => .error .notFound
  | .entry _ _ (some (.directory _)) => return .directory
  | .entry _ _ (some (.file content)) =>
    if p.ending = .slash then .error .notADirectory else return .file content

section Stat
variable {t t' : FileTree} {p : Path}

inductive Finding (t : FileTree) (p : Path) : Except IoError Target → Except IoError Sight → Prop
  | lost {e : IoError} : spot t.sight? p = .error e → Finding t p (.error e) (.error e)
  | dots {q : Place} : spot t.sight? p = .ok (.directory q) → Finding t p (.ok (.directory q)) (.ok .directory)
  | missing {dir : Place} {inner : Entries} {name : String} : spot t.sight? p = .ok (.entry dir name) →
    t.node? dir = some (.directory inner) → inner.lookup name = none →
    Finding t p (.ok (.entry dir name none)) (.error .notFound)
  | below {dir : Place} {inner more : Entries} {name : String} : spot t.sight? p = .ok (.entry dir name) →
    t.node? dir = some (.directory inner) → inner.lookup name = some (.directory more) →
    Finding t p (.ok (.entry dir name (some (.directory more)))) (.ok .directory)
  | file {dir : Place} {inner : Entries} {name : String} {content : Option String} :
    spot t.sight? p = .ok (.entry dir name) → t.node? dir = some (.directory inner) →
    inner.lookup name = some (.file content) → p.ending ≠ .slash →
    Finding t p (.ok (.entry dir name (some (.file content)))) (.ok (.file content))
  | slashed {dir : Place} {inner : Entries} {name : String} {content : Option String} :
    spot t.sight? p = .ok (.entry dir name) → t.node? dir = some (.directory inner) →
    inner.lookup name = some (.file content) → p.ending = .slash →
    Finding t p (.ok (.entry dir name (some (.file content)))) (.error .notADirectory)

theorem finding (t : FileTree) (p : Path) : Finding t p (t.locate p) (t.stat p) := by
  have hl := leads t p
  unfold stat
  generalize t.locate p = found, hspot : spot t.sight? p = x at hl ⊢
  cases hl with
  | lost e => exact .lost hspot
  | directory place => exact .dots hspot
  | @entry dir inner name hdir =>
    cases hn : inner.lookup name with
    | none => exact .missing hspot hdir hn
    | some n =>
      cases n with
      | directory more => exact .below hspot hdir hn
      | file content =>
        by_cases hslash : p.ending = .slash
        · exact (congrArg (Finding t p _) (if_pos hslash)).mpr (.slashed hspot hdir hn hslash)
        · exact (congrArg (Finding t p _) (if_neg hslash)).mpr (.file hspot hdir hn hslash)

def found (see : Place → Option Sight) (p : Path) : Spot → Except IoError Sight
  | .directory _ => .ok .directory
  | .entry dir name =>
    match see (dir ++ [name]) with
    | none => .error .notFound
    | some .directory => .ok .directory
    | some (.file content) => if p.ending = .slash then .error .notADirectory else .ok (.file content)

/-- What is found depends on what is seen alone. -/
theorem stat_eq (t : FileTree) (p : Path) : t.stat p = (spot t.sight? p).bind (found t.sight? p) := by
  have hf := finding t p
  generalize t.locate p = target, t.stat p = seen at hf ⊢
  cases hf with
  | lost hspot | dots hspot =>
    rw [hspot]
    rfl
  | missing hspot hdir hn | below hspot hdir hn =>
    rw [hspot, Except.bind, found, sight?, node?_concat hdir, hn]
    rfl
  | file hspot hdir hn hslash =>
    rw [hspot, Except.bind, found, sight?, node?_concat hdir, hn]
    exact (if_neg hslash).symm
  | slashed hspot hdir hn hslash =>
    rw [hspot, Except.bind, found, sight?, node?_concat hdir, hn]
    exact (if_pos hslash).symm

theorem exists_eq_isOk : t.exists p = (t.stat p).isOk := by
  unfold «exists»
  have hf := finding t p
  generalize t.locate p = found, t.stat p = seen at hf ⊢
  cases hf with
  | lost | dots | missing | below => rfl
  | file _ _ _ hslash => exact decide_eq_true hslash
  | slashed _ _ _ hslash => exact decide_eq_false (not_not_intro hslash)

theorem isDirectory_iff : t.isDirectory p = true ↔ t.stat p = .ok .directory := by
  unfold isDirectory
  have hf := finding t p
  generalize t.locate p = found, t.stat p = seen at hf ⊢
  cases hf <;> simp

theorem read_eq_some {text : String} : t.read p = some text ↔ t.stat p = .ok (.file (some text)) := by
  unfold read
  have hf := finding t p
  generalize t.locate p = found, t.stat p = seen at hf ⊢
  cases hf with
  | lost | dots | missing | below => simp
  | file _ _ _ hslash => simp [hslash]
  | slashed _ _ _ hslash => simp [hslash]

end Stat

end FileTree
end HealthSignal
