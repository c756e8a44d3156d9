/-
Purpose: Which request paths can reach the configuration area. The sandbox compares text, the walk
  reads directory entries: for every path but the ones with a `.` right after `/SYSTEM`, an entry
  of the configuration area is reached only where its canonical spelling passes the sandbox as
  well.
Main exports: Tree, Located, config_area_confined
-/
import MainDob.Fs.Path
import Mathlib.Data.List.Basic
import Mathlib.Tactic.IntervalCases

namespace MainDob.Fs

open List Option

/-! ### Trees and canonical paths -/

def dotName : Path := ['.']

def dotDotName : Path := ['.', '.']

/-- The directory at a cluster has the canonical path `names`. -/
inductive Located (listing : Listing) (root : Nat) : List Path → Nat → Prop where
  | root : Located listing root [] root
  | child {names : List Path} {cluster : Nat} {entry : DirEntry} :
      Located listing root names cluster → entry ∈ listing cluster →
      entry.directory = true → entry.name ≠ dotName → entry.name ≠ dotDotName →
      Located listing root (names ++ [entry.name]) entry.cluster

/-- A directory tree: no directory has two canonical paths, and every directory
below the root holds the entry `.` that leads to itself. -/
structure Tree where
  root : Nat
  listing : Listing
  unique : ∀ names names' cluster, Located listing root names cluster →
    Located listing root names' cluster → names = names'
  dot : ∀ names cluster, Located listing root names cluster → names ≠ [] →
    ∃ entry, dirFindEntry listing cluster dotName = some entry ∧ entry.cluster = cluster

/-- The entry of the directory at `names` that the last component leads to.  An
absent one is where a create would put it. -/
def target (listing : Listing) (cluster : Nat) (names : List Path) (base : Path) : List Path :=
  if base = [] then names
  else
    match dirFindEntry listing cluster base with
    | none => names ++ [base]
    | some entry => if entry.name = dotName then names else names ++ [entry.name]

/-- The request path leads to the entry with the canonical path `names`. -/
def Reaches (tree : Tree) (path : Path) (names : List Path) : Prop :=
  ∃ cluster base above, resolvePath tree.listing tree.root path = some (cluster, base) ∧
    Located tree.listing tree.root above cluster ∧ names = target tree.listing cluster above base

/-- The text of a canonical path. -/
def spell (names : List Path) : Path := names.flatMap (fun name => '/' :: name)

def InsideConfig (names : List Path) : Prop :=
  ∃ top area rest, names = top :: area :: rest ∧
    pathEqCi top "SYSTEM".toList = true ∧ pathEqCi area "CONFIG".toList = true

/-- A request that is let through reaches an entry of the configuration area
only where the canonical spelling of the entry is not refused. -/
def Confined (ctx : Context) (tree : Tree) (sender : Nat) (path : Path) (isWrite : Bool) : Prop :=
  letsThrough ctx sender path isWrite = true → ∀ names, Reaches tree path names →
    InsideConfig names → sandboxCheck ctx sender (spell names) isWrite = true

/-! ### Case folding -/

/-- What a name is when case does not count. -/
def fold (name : Path) : Path := name.map upper

theorem upper_lower (c : Char) : upper (lower c) = upper c := by
  unfold lower
  split
  · next large =>
      have above : 65 ≤ c.toNat := large.1
      have below : c.toNat ≤ 90 := large.2
      rw [← Char.ofNat_toNat c]
      generalize c.toNat = n at above below ⊢
      interval_cases n <;> rfl
  · rfl

theorem lower_upper (c : Char) : lower (upper c) = lower c := by
  unfold upper
  split
  · next small =>
      have above : 97 ≤ c.toNat := small.1
      have below : c.toNat ≤ 122 := small.2
      rw [← Char.ofNat_toNat c]
      generalize c.toNat = n at above below ⊢
      interval_cases n <;> rfl
  · rfl

theorem lower_eq_iff {a b : Char} : lower a = lower b ↔ upper a = upper b := by
  constructor
  · intro same
    rw [← upper_lower a, same, upper_lower]
  · intro same
    rw [← lower_upper a, same, lower_upper]

theorem upper_eq_mark {c mark : Char} (other : ¬ mark.isAlpha) : upper c = mark ↔ c = mark := by
  unfold upper
  split
  · next small =>
      have above : 97 ≤ c.toNat := small.1
      have below : c.toNat ≤ 122 := small.2
      rw [← Char.ofNat_toNat c]
      generalize c.toNat = n at above below ⊢
      interval_cases n <;> constructor <;> rintro rfl <;> exact absurd rfl other
  · exact Iff.rfl

theorem pathEqCi_iff : ∀ {path other : Path}, pathEqCi path other = true ↔ fold path = fold other
  | [], [] => by simp [pathEqCi]
  | [], _ :: _ => by simp [pathEqCi, fold]
  | _ :: _, [] => by simp [pathEqCi, fold]
  | a :: path, b :: other => by
    simp only [pathEqCi, Bool.and_eq_true, beq_iff_eq, fold, map_cons, List.cons.injEq]
    exact and_congr_right (fun _ => pathEqCi_iff)

theorem nameEqCi_iff : ∀ {name other : Path}, nameEqCi name other = true ↔ fold name = fold other
  | [], [] => by simp [nameEqCi]
  | [], _ :: _ => by simp [nameEqCi, fold]
  | _ :: _, [] => by simp [nameEqCi, fold]
  | a :: name, b :: other => by
    simp only [nameEqCi, Bool.and_eq_true, beq_iff_eq, fold, map_cons,
      List.cons.injEq, lower_eq_iff]
    exact and_congr_right (fun _ => nameEqCi_iff)

theorem pathStartsWithCi_iff : ∀ {path start : Path},
    pathStartsWithCi path start = true ↔ fold start <+: fold path
  | _, [] => by simp [pathStartsWithCi, fold]
  | [], _ :: _ => by simp [pathStartsWithCi, fold]
  | a :: path, b :: start => by
    simp only [pathStartsWithCi, Bool.and_eq_true, beq_iff_eq, fold, map_cons, cons_prefix_cons]
    rw [eq_comm]
    exact and_congr_right (fun _ => pathStartsWithCi_iff)

theorem fold_append (front back : Path) :
    fold (front ++ back) = fold front ++ fold back := map_append

variable {name : Path}

theorem fold_eq_dot : fold name = dotName ↔ name = dotName := by
  unfold fold dotName
  constructor
  · intro same
    obtain ⟨c, rest, rfl, dot, nil⟩ := map_eq_cons_iff.mp same
    rw [map_eq_nil_iff.mp nil, (upper_eq_mark (by decide)).mp dot]
  · rintro rfl
    rfl

theorem fold_eq_dotDot : fold name = dotDotName ↔ name = dotDotName := by
  constructor
  · intro same
    obtain ⟨c, rest, rfl, dot, tail⟩ := map_eq_cons_iff.mp same
    rw [fold_eq_dot.mp tail, (upper_eq_mark (by decide)).mp dot]
    rfl
  · rintro rfl
    rfl

/-! ### Paths as lists of components -/

theorem spell_append (front back : List Path) :
    spell (front ++ back) = spell front ++ spell back := flatMap_append

theorem spell_cons (name : Path) (names : List Path) :
    spell (name :: names) = '/' :: name ++ spell names := rfl

/-- The text between slashes. -/
def components : Path → List Path
  | [] => [[]]
  | c :: rest =>
    if c = '/' then [] :: components rest
    else
      match components rest with
      | [] => [[c]]
      | name :: names => (c :: name) :: names

/-- The components of a request path, as `resolve_path` cuts it. -/
def parts (path : Path) : List Path :=
  if lastSep path = 0 then [path.drop 1]
  else components ((path.take (lastSep path)).drop 1) ++ [path.drop (lastSep path + 1)]

theorem components_ne_nil (text : Path) : components text ≠ [] := by
  cases text with
  | nil => simp [components]
  | cons =>
    unfold components
    split
    · simp
    · split <;> simp

theorem spell_components (text : Path) : spell (components text) = '/' :: text := by
  induction text with
  | nil => rfl
  | cons _ rest ih =>
    unfold components
    split
    · next slash =>
        rw [spell_cons, ih, slash]
        rfl
    cases found : components rest with
    | nil => exact absurd found (components_ne_nil rest)
    | cons =>
      rw [found, spell_cons] at ih
      rw [spell_cons]
      simp only [cons_append, List.cons.injEq, true_and] at ih ⊢
      exact ih

theorem components_of_not_mem {text : Path} (clean : '/' ∉ text) : components text = [text] := by
  induction text with
  | nil => rfl
  | cons c _ ih =>
    have differs : ¬ c = '/' := by
      rintro rfl
      exact clean mem_cons_self
    unfold components
    rw [if_neg differs, ih (fun slash => clean (mem_cons_of_mem _ slash))]

theorem components_append (clean : '/' ∉ name) (rest : Path) :
    components (name ++ '/' :: rest) = name :: components rest := by
  induction name with
  | nil => simp [components]
  | cons c _ ih =>
    have differs : ¬ c = '/' := by
      rintro rfl
      exact clean mem_cons_self
    rw [cons_append, components, if_neg differs, ih (fun slash => clean (mem_cons_of_mem _ slash))]

theorem lastSepFrom_cases (text : Path) : ∀ index last, lastSepFrom index last text = last ∨
      (index ≤ lastSepFrom index last text ∧ text[lastSepFrom index last text - index]? = some '/' ∧
        text.drop (lastSepFrom index last text - index + 1) ≠ []) := by
  induction text with
  | nil => exact fun _ _ => Or.inl rfl
  | cons c rest ih =>
    intro index last
    unfold lastSepFrom
    rcases ih (index + 1) (if c = '/' ∧ rest ≠ [] then index else last) with
      kept | ⟨above, slash, more⟩
    · rw [kept]
      split
      · next here =>
          refine Or.inr ⟨le_refl _, by simp [here.1], ?_⟩
          rw [Nat.sub_self]
          exact here.2
      · exact Or.inl rfl
    · refine Or.inr ⟨Nat.le_of_succ_le above, ?_⟩
      have shift : lastSepFrom (index + 1)
          (if c = '/' ∧ rest ≠ [] then index else last) rest - index = (lastSepFrom (index + 1)
          (if c = '/' ∧ rest ≠ [] then index else last) rest - (index + 1)) + 1 := by omega
      rw [shift, List.getElem?_cons_succ]
      exact ⟨slash, more⟩

variable {path : Path}

theorem split_at_lastSep (absolute : path.head? = some '/') (deep : lastSep path ≠ 0) :
    path = '/' :: (path.take (lastSep path)).drop 1 ++
      '/' :: path.drop (lastSep path + 1) ∧ path.drop (lastSep path + 1) ≠ [] := by
  obtain ⟨text, rfl⟩ := List.head?_eq_some_iff.mp absolute
  rcases lastSepFrom_cases text 1 0 with none' | ⟨above, slash, more⟩
  · exact absurd none' deep
  obtain ⟨k, position⟩ := Nat.exists_eq_add_of_le' above
  have shown : lastSep ('/' :: text) = k + 1 := position
  rw [position, Nat.add_sub_cancel] at slash more
  obtain ⟨bound, char⟩ := List.getElem?_eq_some_iff.mp slash
  rw [shown]
  refine ⟨?_, more⟩
  simp only [take_succ_cons, drop_succ_cons, drop_zero, cons_append, List.cons.injEq, true_and]
  rw [← char, ← drop_eq_getElem_cons bound, take_append_drop]

theorem spell_parts (absolute : path.head? = some '/') : spell (parts path) = path := by
  unfold parts
  split
  · obtain ⟨_, rfl⟩ := List.head?_eq_some_iff.mp absolute
    simp [spell]
  · next deep =>
      rw [spell_append, spell_components]
      conv_rhs => rw [(split_at_lastSep absolute deep).1]
      simp [spell]

/-! ### The walk -/

/-- The lookups of the walk, component by component. -/
def descend (listing : Listing) : List Path → Nat → Option Nat
  | [], cluster => some cluster
  | name :: names, cluster =>
    match dirFindEntry listing cluster name with
    | none => none
    | some entry =>
      if entry.directory then descend listing names entry.cluster else none

theorem takeWhile_component (clean : '/' ∉ name) (rest : Path) :
    (name ++ '/' :: rest).takeWhile (· ≠ '/') = name := by
  rw [takeWhile_append_of_pos]
  · simp
  intro c inside
  rw [decide_eq_true_eq]
  rintro rfl
  exact clean inside

theorem walkDirs_round (listing : Listing) {name : Path} (clean : '/' ∉ name)
    (short : name.length ≤ pathMax - 1) (rest : Path) (fuel more cluster : Nat) :
    walkDirs listing (fuel + 1) (name ++ '/' :: rest) (name.length + 1 + more) cluster =
      match dirFindEntry listing cluster name with
      | none => none
      | some entry =>
        if entry.directory then walkDirs listing fuel rest more entry.cluster
        else none := by
  have positive : ¬ name.length + 1 + more = 0 := by omega
  have left : name.length + 1 + more - (name.length + 1) = more := by omega
  rw [walkDirs, if_neg positive]
  cases found : dirFindEntry listing cluster name with
  | none => simp only [takeWhile_component clean, take_of_length_le short, found]
  | some =>
    simp only [takeWhile_component clean, take_of_length_le short, found,
      drop_left, List.head?_cons, if_true, drop_succ_cons, drop_zero, left]

theorem walkDirs_components (listing : Listing) (back : Path) : ∀ fuel front cluster,
    front.length + 1 < fuel → front.length ≤ pathMax - 1 → walkDirs listing fuel (front ++
    '/' :: back) (front.length + 1) cluster = descend listing (components front) cluster := by
  intro fuel
  induction fuel with
  | zero =>
    intro front cluster enough
    cases enough
  | succ fuel ih =>
    intro front cluster enough short
    by_cases slash : '/' ∈ front
    · obtain ⟨name, rest, rfl, clean⟩ := eq_append_cons_of_mem slash
      have length : (name ++ '/' :: rest).length + 1 = name.length + 1 + (rest.length + 1) := by
        simp only [length_append, length_cons]
        omega
      rw [length, append_assoc, cons_append,
        walkDirs_round listing clean (by omega), components_append clean, descend]
      split
      · rfl
      split
      · exact ih rest _ (by omega) (by omega)
      · rfl
    · have round := walkDirs_round listing slash short back fuel 0 cluster
      rw [round, components_of_not_mem slash, descend]
      split
      · rfl
      split
      · obtain ⟨fuel, rfl⟩ := Nat.exists_eq_succ_of_ne_zero (n := fuel) (by omega)
        rfl
      · rfl

theorem resolvePath_parts (listing : Listing) (root : Nat) (absolute : path.head? = some '/')
    (short : path.length ≤ pathMax - 1) : ∃ names base, parts path = names ++
    [base] ∧ resolvePath listing root path = (descend listing names root).map
        (fun cluster => (cluster, base)) ∧ (base = [] → names = []) := by
  have started : ¬ path.head? ≠ some '/' := fun other => other absolute
  unfold resolvePath
  rw [if_neg started]
  by_cases only : path = ['/']
  · rw [if_pos only, only]
    exact ⟨[], [], rfl, rfl, fun _ => rfl⟩
  rw [if_neg only]
  unfold parts
  by_cases flat : lastSep path = 0
  · rw [if_pos flat, if_pos flat]
    exact ⟨[], _, rfl, rfl, fun _ => rfl⟩
  rw [if_neg flat, if_neg flat]
  obtain ⟨shape, more⟩ := split_at_lastSep absolute flat
  refine ⟨_, _, rfl, ?_, fun empty => absurd empty more⟩
  have bound := congrArg List.length shape
  simp only [cons_append, length_cons, length_append, length_drop, length_take] at bound
  have front : ((path.take (lastSep path)).drop 1).length + 1 = lastSep path := by
    rw [length_drop, length_take]
    omega
  have text : path.drop 1 = (path.take (lastSep path)).drop 1 ++
      '/' :: path.drop (lastSep path + 1) := by
    conv_lhs => rw [shape]
    rfl
  have lookups := walkDirs_components listing (path.drop (lastSep path + 1)) (path.length + 1)
    ((path.take (lastSep path)).drop 1) root (by omega) (by omega)
  rw [← text, front] at lookups
  rw [lookups]
  cases descend listing (components ((path.take (lastSep path)).drop 1)) root <;> rfl

/-! ### Where the walk arrives -/

/-- The components that are not `.`. -/
def withoutDots (components : List Path) : List Path :=
  components.filter (· ≠ dotName)

theorem withoutDots_append (front back : List Path) :
    withoutDots (front ++ back) = withoutDots front ++ withoutDots back :=
  filter_append ..

theorem withoutDots_skip (rest : List Path) : withoutDots (dotName :: rest) = withoutDots rest := by
  simp [withoutDots]

theorem withoutDots_keep {component : Path} (other : component ≠ dotName) (rest : List Path) :
    withoutDots (component :: rest) = component :: withoutDots rest := by
  simp [withoutDots, other]

/-- `names` are the components up to case, with dots left out. -/
def Follows (components names : List Path) : Prop :=
  names.map fold = (withoutDots components).map fold

variable {names : List Path}

theorem Follows.append {front back names' : List Path} (first : Follows front names)
    (second : Follows back names') : Follows (front ++ back) (names ++ names') := by
  unfold Follows at *
  rw [withoutDots_append, map_append, map_append, first, second]

variable {rest : List Path}

theorem Follows.keep {component : Path} (other : component ≠ dotName)
    (same : fold name = fold component) (follows : Follows rest names) :
    Follows (component :: rest) (name :: names) := by
  unfold Follows at *
  rw [withoutDots_keep other, map_cons, map_cons, same, follows]

theorem Follows.skip (follows : Follows rest names) : Follows (dotName :: rest) names := by
  unfold Follows at *
  rw [withoutDots_skip, follows]

variable {cluster : Nat} {entry : DirEntry}

theorem dirFindEntry_cases {listing : Listing}
    (found : dirFindEntry listing cluster name = some entry) :
    entry ∈ listing cluster ∧ fold entry.name = fold name := by
  have same := List.find?_some found
  exact ⟨mem_of_find?_eq_some found, (nameEqCi_iff.mp same).symm⟩

theorem name_eq_dot (same : fold entry.name = fold name) :
    entry.name = dotName ↔ name = dotName := by
  rw [← fold_eq_dot, same, fold_eq_dot]

theorem name_eq_dotDot (same : fold entry.name = fold name) :
    entry.name = dotDotName ↔ name = dotDotName := by
  rw [← fold_eq_dotDot, same, fold_eq_dotDot]

namespace Tree

variable (tree : Tree)

theorem lookup (here : Located tree.listing tree.root names cluster)
    (below : names ≠ [] ∨ name ≠ dotName) (straight : name ≠ dotDotName)
    (found : dirFindEntry tree.listing cluster name = some entry) :
    (name = dotName ∧ entry.name = dotName ∧ entry.cluster = cluster) ∨
      (name ≠ dotName ∧ fold entry.name = fold name ∧ entry.name ≠ dotName ∧
        (entry.directory = true → Located tree.listing tree.root (names ++ [entry.name])
            entry.cluster)) := by
  obtain ⟨member, same⟩ := dirFindEntry_cases found
  by_cases dot : name = dotName
  · refine Or.inl ⟨dot, (name_eq_dot same).mpr dot, ?_⟩
    have inner : names ≠ [] := below.resolve_right (fun other => other dot)
    obtain ⟨_, selfFound, home⟩ := tree.dot names cluster here inner
    rw [dot] at found
    cases found.symm.trans selfFound
    exact home
  · refine Or.inr ⟨dot, same, fun dotted => dot ((name_eq_dot same).mp dotted), ?_⟩
    intro directory
    refine Located.child here member directory ?_ ?_
    · exact fun dotted => dot ((name_eq_dot same).mp dotted)
    · exact fun up => straight ((name_eq_dotDot same).mp up)

theorem descend_located (components : List Path) : ∀ {names : List Path} {cluster reached : Nat},
    Located tree.listing tree.root names cluster → (names ≠ [] ∨ components.head? ≠ some dotName) →
    (∀ component ∈ components, component ≠ dotDotName) →
    descend tree.listing components cluster = some reached → ∃ below, Located tree.listing tree.root
    (names ++ below) reached ∧ Follows components below := by
  induction components with
  | nil =>
    intro names cluster reached here _ _ walked
    cases walked
    exact ⟨[], by rwa [append_nil], rfl⟩
  | cons component _ ih =>
    intro names cluster reached here inner straight walked
    unfold descend at walked
    split at walked
    · cases walked
    next entry found =>
      split at walked
      · next directory =>
          have below : names ≠ [] ∨ component ≠ dotName :=
            inner.imp_right (fun other dot => other (congrArg some dot))
          have straight' := fun other member => straight other (mem_cons_of_mem _ member)
          rcases tree.lookup here below (straight _ mem_cons_self)
            found with ⟨dot, _, home⟩ | ⟨other, same, _, down⟩
          · have inside : names ≠ [] := below.resolve_right (fun other => other dot)
            rw [home] at walked
            obtain ⟨further, arrived, follows⟩ := ih here (Or.inl inside) straight' walked
            exact ⟨further, arrived, dot ▸ follows.skip⟩
          · obtain ⟨further, arrived, follows⟩ := ih (down directory)
              (Or.inl (by simp)) straight' walked
            refine ⟨entry.name :: further, ?_, follows.keep other same⟩
            rwa [append_assoc] at arrived
      · cases walked

theorem follows_of_reaches (absolute : path.head? = some '/') (short : path.length ≤ pathMax - 1)
    (inner : (parts path).head? ≠ some dotName)
    (straight : ∀ component ∈ parts path, component ≠ dotDotName)
    (reaches : Reaches tree path names) : Follows (parts path) names ∨ names = [] := by
  obtain ⟨_, base, _, resolved, here, rfl⟩ := reaches
  obtain ⟨components, _, cut, lookups, onlyRoot⟩ :=
    resolvePath_parts tree.listing tree.root absolute short
  rw [lookups] at resolved
  obtain ⟨_, walked, pair⟩ := map_eq_some_iff.mp resolved
  cases pair
  rw [cut] at inner straight ⊢
  have first : components.head? ≠ some dotName := by
    cases components with
    | nil => simp
    | cons => exact inner
  obtain ⟨below, arrived, follows⟩ := tree.descend_located components
    Located.root (Or.inr first) (fun component member =>
      straight component (mem_append_left _ member)) walked
  cases tree.unique _ _ _ here arrived
  have straightBase := straight base (mem_append_right _ (mem_singleton_self _))
  have innerBase : below ≠ [] ∨ base ≠ dotName := by
    cases components with
    | nil =>
      refine Or.inr ?_
      rintro rfl
      exact inner rfl
    | cons component =>
      refine Or.inl ?_
      rintro rfl
      have other : component ≠ dotName := fun dot => first (congrArg some dot)
      unfold Follows at follows
      rw [withoutDots_keep other] at follows
      cases follows
  have nothing : Follows [] [] := rfl
  unfold target
  split
  · next empty =>
      refine Or.inr ?_
      rw [onlyRoot empty] at follows
      exact map_eq_nil_iff.mp follows
  split
  · next absent =>
      have other : base ≠ dotName := by
        refine innerBase.elim ?_ id
        rintro inside rfl
        obtain ⟨_, found, _⟩ := tree.dot _ _ arrived inside
        rw [found] at absent
        cases absent
      exact Or.inl (follows.append (nothing.keep other rfl))
  · next entry found =>
      rcases tree.lookup arrived innerBase straightBase found with
        ⟨dot, self, _⟩ | ⟨kept, same, other, _⟩
      · rw [if_pos self, dot]
        have skipped := follows.append nothing.skip
        rw [append_nil] at skipped
        exact Or.inl skipped
      · rw [if_neg other]
        exact Or.inl (follows.append (nothing.keep kept same))

end Tree

/-! ### What the text of a path says -/

/-- Nothing follows, or a slash does. -/
def Bounded (text : Path) : Prop := ∀ c, text.head? = some c → c = '/'

theorem bounded_spell (names : List Path) : Bounded (fold (spell names)) := by
  intro c first
  cases names with
  | nil => cases first
  | cons =>
    cases first
    rfl

theorem inArea_iff {dir : Path} : inArea dir path = true ↔
    ∃ text, fold path = fold dir ++ text ∧ Bounded text := by
  unfold inArea
  rw [Bool.or_eq_true, pathStartsWithCi_iff, pathEqCi_iff]
  constructor
  · rintro (⟨rest, same⟩ | same)
    · refine ⟨'/' :: rest, ?_, ?_⟩
      · rw [← same, fold_append, append_assoc]
        rfl
      · rintro c first
        cases first
        rfl
    · exact ⟨[], by rw [same, append_nil], fun c first => nomatch first⟩
  · rintro ⟨text, same, bounded⟩
    cases text with
    | nil => exact Or.inr (by rw [same, append_nil])
    | cons c rest =>
      have slash : c = '/' := bounded c rfl
      refine Or.inl ⟨rest, ?_⟩
      rw [same, slash, fold_append, append_assoc]
      rfl

theorem fold_spell_cons (name : Path) (names : List Path) :
    fold (spell (name :: names)) = '/' :: fold name ++ fold (spell names) := by
  rw [spell_cons, fold_append]
  rfl

theorem fold_spell_congr : ∀ {names others : List Path},
    names.map fold = others.map fold → fold (spell names) = fold (spell others)
  | [], [], _ => rfl
  | name :: names, other :: others, same => by
    obtain ⟨first, rest⟩ := List.cons.inj same
    rw [fold_spell_cons, fold_spell_cons, first, fold_spell_congr rest]

theorem area_withoutDots {dir : Path} {components : List Path}
    (clean : '/' ∉ dir) (proper : dir ≠ []) (visible : dir ≠ dotName)
    (area : ∃ text, fold (spell components) = '/' :: dir ++ text ∧ Bounded text) :
    ∃ text, fold (spell (withoutDots components)) = '/' :: dir ++ text ∧ Bounded text := by
  obtain ⟨_, same, bounded⟩ := area
  cases components with
  | nil => cases same
  | cons component rest =>
    rw [fold_spell_cons] at same
    have joined := List.cons.inj same
    rcases append_eq_append_iff.mp joined.2 with
      ⟨more, split, tail⟩ | ⟨more, split, tail⟩
    · -- the component ends inside the name, where there is no slash
      cases more with
      | nil =>
        rw [append_nil] at split
        subst split
        have other : component ≠ dotName := fun dot => visible (fold_eq_dot.mpr dot)
        rw [withoutDots_keep other]
        exact ⟨_, fold_spell_cons .., bounded_spell _⟩
      | cons c =>
        have slash : c = '/' := bounded_spell rest c (by rw [tail]; rfl)
        refine absurd ?_ clean
        rw [split, slash]
        exact mem_append_right _ mem_cons_self
    · have other : component ≠ dotName := by
        intro dot
        rw [fold_eq_dot.mpr dot] at split
        cases dir with
        | nil => exact proper rfl
        | cons =>
          obtain ⟨rfl, nil⟩ := List.cons.inj split
          rw [(append_eq_nil_iff.mp nil.symm).1] at visible
          exact visible rfl
      rw [withoutDots_keep other]
      refine ⟨more ++ fold (spell (withoutDots rest)), ?_, ?_⟩
      · rw [fold_spell_cons, split]
        simp
      cases more with
      | nil => exact bounded_spell _
      | cons c =>
        intro d first
        cases first
        exact bounded c (by rw [tail]; rfl)

theorem safe_of_append : ∀ {front back : Path},
    pathIsSafe (front ++ back) = true → pathIsSafe back = true
  | [], _, safe => safe
  | c :: front, back, safe => by
    rw [cons_append, pathIsSafe] at safe
    split at safe
    · cases safe
    · exact safe_of_append safe

theorem straight_of_safe : ∀ {components : List Path}, pathIsSafe (spell components) = true →
    ∀ component ∈ components, component ≠ dotDotName
  | first :: rest, safe, component, member => by
    rcases mem_cons.mp member with rfl | later
    · rintro rfl
      cases safe
    · exact straight_of_safe (safe_of_append safe) component later

/-! ### The check and the walk -/

/-- The paths for which text and walk disagree: a `.` follows `/SYSTEM`, and
without its dots the path lies in the configuration area, outside the public
corner. -/
def HiddenByDots (path : Path) : Prop :=
  path.head? = some '/' ∧ pathIsSafe path = true ∧ ∃ top more, parts path = top :: dotName :: more ∧
      pathEqCi top "SYSTEM".toList = true ∧
      InsideConfig (withoutDots (parts path)) ∧
      inCommonFiles (spell (withoutDots (parts path))) = false

theorem inside_fold {others : List Path} (same : names.map fold = others.map fold)
    (inside : InsideConfig names) : InsideConfig others := by
  obtain ⟨_, _, _, rfl, system, config⟩ := inside
  rw [pathEqCi_iff] at system config
  obtain ⟨top', _, rfl, first, tail⟩ := map_eq_cons_iff.mp same.symm
  obtain ⟨area', rest', rfl, second, _⟩ := map_eq_cons_iff.mp tail
  exact ⟨top', area', rest', rfl, pathEqCi_iff.mpr (first.trans system),
    pathEqCi_iff.mpr (second.trans config)⟩

theorem fold_spell_config {top area : Path} (system : fold top = fold "SYSTEM".toList)
    (config : fold area = fold "CONFIG".toList) :
    fold (spell (top :: area :: rest)) = fold "/SYSTEM/CONFIG".toList ++ fold (spell rest) := by
  rw [fold_spell_cons, fold_spell_cons, system, config]
  rfl

theorem inConfigArea_of_inside (inside : InsideConfig names) :
    inConfigArea (spell names) = true := by
  obtain ⟨_, _, rest, rfl, system, config⟩ := inside
  rw [pathEqCi_iff] at system config
  exact inArea_iff.mpr ⟨_, fold_spell_config system config, bounded_spell rest⟩

theorem corner_iff {corner : Path} {top area : Path} (system : fold top = fold "SYSTEM".toList)
    (config : fold area = fold "CONFIG".toList) :
    inArea ("/SYSTEM/CONFIG".toList ++ '/' :: corner) (spell (top :: area :: rest)) = true ↔
      ∃ text, fold (spell rest) = '/' :: fold corner ++ text ∧ Bounded text := by
  rw [inArea_iff, fold_spell_config system config, fold_append]
  refine exists_congr (fun text => and_congr_left (fun _ => ?_))
  rw [append_assoc, append_cancel_left_eq]
  exact Iff.rfl

theorem corner_withoutDots {corner : Path} {top area : Path} (clean : '/' ∉ fold corner)
    (proper : fold corner ≠ []) (visible : fold corner ≠ dotName)
    (system : fold top = fold "SYSTEM".toList) (config : fold area = fold "CONFIG".toList)
    (corner' : inArea ("/SYSTEM/CONFIG".toList ++ '/' :: corner)
      (spell (top :: area :: rest)) = true) :
    inArea ("/SYSTEM/CONFIG".toList ++ '/' :: corner)
      (spell (top :: area :: withoutDots rest)) = true := by
  rw [corner_iff system config] at corner' ⊢
  exact area_withoutDots clean proper visible corner'

theorem inArea_congr {dir other : Path} (same : fold path = fold other) :
    inArea dir path = inArea dir other := by
  rw [Bool.eq_iff_iff, inArea_iff, inArea_iff, same]

theorem sandboxCheck_inside {ctx : Context} {sender : Nat} {isWrite : Bool}
    (primary : ctx.mountSecondary = false) (area : inConfigArea path = true) :
    sandboxCheck ctx sender path isWrite = true ↔
    inCommonFiles path = true ∨ (isWrite = false ∧ ctx.isDriver sender = true ∧
        inDeviceScripts path = true) ∨ configAreaAllowed ctx sender = true := by
  unfold sandboxCheck
  rw [if_neg (by simp [primary]), if_pos area]
  split
  · next common => simp [common]
  next other =>
    split
    · next scripts =>
        simp only [Bool.and_eq_true, Bool.not_eq_true'] at scripts
        simp [scripts.1.1, scripts.1.2, scripts.2]
    next noScripts =>
      simp only [Bool.and_eq_true, Bool.not_eq_true', not_and] at noScripts
      constructor
      · exact fun allowed => Or.inr (Or.inr allowed)
      rintro (common | ⟨read, driver, scripts⟩ | allowed)
      · exact absurd common other
      · exact absurd scripts (noScripts ⟨read, driver⟩)
      · exact allowed

theorem head_of_valid {ctx : Context} (primary : ctx.mountSecondary = false)
    (valid : validatePath ctx path = true) :
    path.head? = some '/' ∧ (parts path).head? ≠ some dotName := by
  unfold validatePath at valid
  split at valid
  · cases valid
  next absolute =>
    rw [not_not] at absolute
    refine ⟨absolute, ?_⟩
    intro dot
    have text := spell_parts absolute
    obtain ⟨rest, shape⟩ := List.head?_eq_some_iff.mp dot
    rw [shape, spell_cons] at text
    rw [← text, primary, if_neg nofun, if_neg Bool.false_ne_true] at valid
    exact Bool.false_ne_true valid

theorem confined_of_not_hidden {ctx : Context} {tree : Tree} {sender : Nat}
    {isWrite : Bool} (short : path.length ≤ pathMax - 1)
    (clear : ¬ HiddenByDots path) : Confined ctx tree sender path isWrite := by
  intro through names reaches inside
  unfold letsThrough at through
  simp only [Bool.and_eq_true] at through
  obtain ⟨⟨valid, safe⟩, allowed⟩ := through
  cases primary : ctx.mountSecondary with
  | true => simp [sandboxCheck, primary]
  | false =>
    obtain ⟨absolute, inner⟩ := head_of_valid primary valid
    have text := spell_parts absolute
    have straight : ∀ component ∈ parts path, component ≠ dotDotName :=
      straight_of_safe (by rw [text]; exact safe)
    rcases tree.follows_of_reaches absolute short inner straight reaches with
      follows | rfl
    · have same := fold_spell_congr follows
      rw [sandboxCheck_inside primary (inConfigArea_of_inside inside)]
      unfold inCommonFiles inDeviceScripts
      rw [inArea_congr same, inArea_congr same]
      rw [← text] at allowed
      obtain ⟨top, area, rest, plain, system, config⟩ := inside_fold follows inside
      rw [pathEqCi_iff] at system config
      cases cut : parts path with
      | nil =>
        rw [cut] at plain
        cases plain
      | cons first later =>
        have visible : first ≠ dotName := by
          rintro rfl
          exact inner (by rw [cut]; rfl)
        rw [cut] at plain allowed
        rw [withoutDots_keep visible] at plain ⊢
        obtain ⟨rfl, tail⟩ := List.cons.inj plain
        cases later with
        | nil => cases tail
        | cons second more =>
          by_cases dotted : second = dotName
          · -- only the public corner is left
            subst dotted
            refine Or.inl ?_
            by_contra common
            rw [Bool.not_eq_true] at common
            refine clear ⟨absolute, safe, first, more, cut, ?_, ?_, ?_⟩
            · exact pathEqCi_iff.mpr system
            · exact inside_fold follows inside
            · rw [cut, withoutDots_keep visible]
              exact common
          · rw [withoutDots_keep dotted] at tail ⊢
            obtain ⟨rfl, _⟩ := List.cons.inj tail
            have lies : InsideConfig (first :: second :: more) :=
              ⟨first, second, more, rfl, pathEqCi_iff.mpr system, pathEqCi_iff.mpr config⟩
            rw [sandboxCheck_inside primary (inConfigArea_of_inside lies)] at allowed
            rcases allowed with common | ⟨read, driver, scripts⟩ | listed
            · exact Or.inl (corner_withoutDots (by decide) (by decide)
                (by decide) system config common)
            · exact Or.inr (Or.inl ⟨read, driver, corner_withoutDots
                (by decide) (by decide) (by decide) system config scripts⟩)
            · exact Or.inr (Or.inr listed)
    · obtain ⟨_, _, _, impossible, _⟩ := inside
      cases impossible

/-! ### A tree for every path -/

/-- Directories one below the other, and a file in the last. -/
def spineListing (names : List Path) (file : Option Path) : Listing :=
  fun cluster =>
    (if cluster = 0 then []
      else [⟨dotName, true, cluster⟩, ⟨dotDotName, true, cluster - 1⟩]) ++
    (names[cluster]?.map (fun name => ⟨name, true, cluster + 1⟩)).toList ++
    (if cluster = names.length then
      (file.map (fun name => ⟨name, false, 0⟩)).toList
    else [])

variable {file : Option Path}

theorem spine_located {found : List Path}
    (located : Located (spineListing names file) 0 found cluster) :
    found = names.take cluster ∧ cluster ≤ names.length := by
  induction located with
  | root => simp
  | @child above here entry _ member directory dot dotDot ih =>
    obtain ⟨rfl, _⟩ := ih
    rcases mem_append.mp member with member | member
    · rcases mem_append.mp member with member | member
      · split at member
        · cases member
        simp only [mem_cons, not_mem_nil, or_false] at member
        rcases member with rfl | rfl
        · exact absurd rfl dot
        · exact absurd rfl dotDot
      · obtain ⟨_, at', rfl⟩ := map_eq_some_iff.mp (mem_toList.mp member)
        obtain ⟨inside, rfl⟩ := List.getElem?_eq_some_iff.mp at'
        exact ⟨(take_succ_eq_append_getElem inside).symm, inside⟩
    · split at member
      · obtain ⟨_, _, rfl⟩ := map_eq_some_iff.mp (mem_toList.mp member)
        cases directory
      · cases member

theorem spine_dot (names : List Path) (file : Option Path) (below : cluster ≠ 0) :

    dirFindEntry (spineListing names file) cluster dotName = some ⟨dotName, true, cluster⟩ := by
  unfold dirFindEntry spineListing
  rw [if_neg below]
  rfl

/-- The tree with these directories and that file. -/
def spine (names : List Path) (file : Option Path) : Tree where
  root := 0
  listing := spineListing names file
  unique := by
    intro found found' cluster first second
    rw [(spine_located first).1, (spine_located second).1]
  dot := by
    intro found cluster located proper
    refine ⟨_, spine_dot names file ?_, rfl⟩
    rintro rfl
    exact proper (spine_located located).1

section

variable (visible : name ≠ dotName) (straight : name ≠ dotDotName)
include visible straight

theorem nameEqCi_dots :

    nameEqCi name dotName = false ∧ nameEqCi name dotDotName = false := by
  constructor
  · rw [← Bool.not_eq_true, nameEqCi_iff]
    exact fun same => visible (fold_eq_dot.mp same)
  · rw [← Bool.not_eq_true, nameEqCi_iff]
    exact fun same => straight (fold_eq_dotDot.mp same)

theorem spine_lookup (here : names[cluster]? = some name) :
    dirFindEntry (spineListing names file) cluster name = some ⟨name, true, cluster + 1⟩ := by
  obtain ⟨noDot, noDotDot⟩ := nameEqCi_dots visible straight
  have self : nameEqCi name name = true := nameEqCi_iff.mpr rfl
  unfold dirFindEntry spineListing
  rw [here]
  split <;> simp [noDot, noDotDot, self]

theorem spine_file :
    dirFindEntry (spineListing names (some name)) names.length name = some ⟨name, false, 0⟩ := by
  obtain ⟨noDot, noDotDot⟩ := nameEqCi_dots visible straight
  have self : nameEqCi name name = true := nameEqCi_iff.mpr rfl
  unfold dirFindEntry spineListing
  split <;> simp [noDot, noDotDot, self]

end

theorem spine_descend (components : List Path) :
    ∀ {cluster : Nat}, cluster ≤ names.length → (cluster ≠ 0 ∨ components.head? ≠ some dotName) →
    (∀ component ∈ components, component ≠ dotDotName) →
    withoutDots components = names.drop cluster →
    descend (spineListing names file) components cluster = some names.length := by
  induction components with
  | nil =>
    intro cluster bound _ _ rest
    have exhausted : names.length ≤ cluster := drop_eq_nil_iff.mp rest.symm
    rw [le_antisymm bound exhausted]
    rfl
  | cons component _ ih =>
    intro cluster bound inner straight rest
    have straight' := fun other member => straight other (mem_cons_of_mem _ member)
    unfold descend
    by_cases dot : component = dotName
    · have below : cluster ≠ 0 := inner.resolve_right (fun other => other (congrArg some dot))
      rw [dot, withoutDots_skip] at rest
      rw [dot, spine_dot names file below]
      exact ih bound (Or.inl below) straight' rest
    · rw [withoutDots_keep dot] at rest
      have here : names[cluster]? = some component := by
        rw [← List.head?_drop, ← rest]
        rfl
      rw [spine_lookup dot (straight _ mem_cons_self) here]
      obtain ⟨inside, _⟩ := List.getElem?_eq_some_iff.mp here
      refine ih inside (Or.inl (Nat.succ_ne_zero _)) straight' ?_
      have tail := congrArg List.tail rest
      rw [tail_drop] at tail
      exact tail

theorem spine_reached (visible : ∀ name ∈ names, name ≠ dotName)
    (straight : ∀ name ∈ names, name ≠ dotDotName) : ∀ {cluster : Nat},
    cluster ≤ names.length → Located (spineListing names file) 0 (names.take cluster) cluster := by
  intro cluster
  induction cluster with
  | zero => exact fun _ => Located.root
  | succ cluster ih =>
    intro inside
    have member : names[cluster] ∈ names := getElem_mem inside
    have entry : (⟨names[cluster], true, cluster + 1⟩ : DirEntry) ∈
        spineListing names file cluster := by
      unfold spineListing
      simp
    rw [take_succ_eq_append_getElem inside]
    exact Located.child (ih (Nat.le_of_succ_le inside)) entry rfl
      (visible _ member) (straight _ member)

theorem spine_reaches (absolute : path.head? = some '/') (short : path.length ≤ pathMax - 1)
    (deep : ∃ top below more, parts path = top :: below :: more)
    (inner : (parts path).head? ≠ some dotName)
    (straight : ∀ component ∈ parts path, component ≠ dotDotName) :
    ∃ tree, Reaches tree path (withoutDots (parts path)) := by
  obtain ⟨above, base, cut, _, onlyRoot⟩ := resolvePath_parts (fun _ => []) 0 absolute short
  have nonempty : base ≠ [] := by
    intro empty
    rw [onlyRoot empty] at cut
    obtain ⟨_, _, _, shape⟩ := deep
    cases cut.symm.trans shape
  have first : above.head? ≠ some dotName := by
    cases above with
    | nil => simp
    | cons => rwa [cut] at inner
  have straightAbove : ∀ component ∈ above, component ≠ dotDotName := by
    intro component member
    refine straight component ?_
    rw [cut]
    exact mem_append_left _ member
  have straightBase : base ≠ dotDotName := by
    refine straight base ?_
    rw [cut]
    exact mem_append_right _ (mem_singleton_self _)
  let file := if base = dotName then none else some base
  refine ⟨spine (withoutDots above) file, (withoutDots above).length, base,
    withoutDots above, ?_, ?_, ?_⟩
  · obtain ⟨above', _, cut', lookups, _⟩ := resolvePath_parts
      (spineListing (withoutDots above) file) 0 absolute short
    obtain ⟨rfl, last⟩ := append_inj' (cut'.symm.trans cut) rfl
    cases last
    have walked : descend (spineListing (withoutDots above') file) above' 0 =
        some (withoutDots above').length :=
      spine_descend above' (Nat.zero_le _) (Or.inr first) straightAbove rfl
    change resolvePath (spineListing (withoutDots above') file) 0 path = _
    rw [lookups, walked]
    rfl
  · have located : Located (spineListing (withoutDots above) file) 0
        ((withoutDots above).take (withoutDots above).length) (withoutDots above).length := by
      refine spine_reached ?_ ?_ (le_refl _)
      · intro name member
        exact of_decide_eq_true (mem_filter.mp member).2
      · intro name member
        exact straightAbove name (mem_filter.mp member).1
    rwa [take_length] at located
  · unfold target
    rw [if_neg nonempty, cut, withoutDots_append]
    change _ = match dirFindEntry (spineListing (withoutDots above) file) _ base
      with | none => _ | some entry => _
    by_cases dot : base = dotName
    · have below : (withoutDots above).length ≠ 0 := by
        cases above with
        | nil =>
          rw [cut, dot] at inner
          exact absurd rfl inner
        | cons =>
          rw [withoutDots_keep (fun same => first (congrArg some same))]
          exact Nat.succ_ne_zero _
      rw [dot, spine_dot _ _ below]
      exact append_nil _
    · have named : file = some base := if_neg dot
      rw [named, spine_file dot straightBase, withoutDots_keep dot]
      exact (if_neg dot).symm

/-- A driver that has no home directory. -/
def bareDriver : Context where
  mountSecondary := false
  isDriver := fun _ => true
  getHomeDir := fun _ => none

theorem hidden_let_through (hidden : HiddenByDots path) :
    letsThrough bareDriver 0 path true = true := by
  obtain ⟨absolute, safe, _, more, cut, system, _, _⟩ := hidden
  have text := spell_parts absolute
  rw [cut] at text
  have folded : fold path = fold "/SYSTEM/.".toList ++ fold (spell more) := by
    rw [← text, fold_spell_cons, fold_spell_cons, pathEqCi_iff.mp system]
    rfl
  have proper : path ≠ ['/'] := by
    rintro rfl
    cases cut
  have outside : inConfigArea path = false := by
    rw [← Bool.not_eq_true, inConfigArea, inArea_iff, folded]
    rintro ⟨_, same, _⟩
    cases same
  have start : pathStartsWithCi path "/SYSTEM/".toList = true :=
    pathStartsWithCi_iff.mpr (folded ▸ ⟨'.' :: fold (spell more), rfl⟩)
  have valid : validatePath bareDriver path = true := by
    unfold validatePath
    rw [if_neg (fun other => other absolute), if_neg proper, start]
    rfl
  have allowed : sandboxCheck bareDriver 0 path true = true := by
    simp [sandboxCheck, outside, bareDriver]
  rw [letsThrough, valid, safe, allowed]
  rfl

theorem not_confined_of_hidden (short : path.length ≤ pathMax - 1) (hidden : HiddenByDots path) :
    ∃ tree, ¬ Confined bareDriver tree 0 path true := by
  have through := hidden_let_through hidden
  obtain ⟨absolute, safe, top, more, cut, system, inside, common⟩ := hidden
  have straight : ∀ component ∈ parts path, component ≠ dotDotName :=
    straight_of_safe (by rw [spell_parts absolute]; exact safe)
  have inner : (parts path).head? ≠ some dotName := by
    rw [cut]
    rintro dot
    cases dot
    cases system
  obtain ⟨tree, reaches⟩ := spine_reaches absolute short ⟨top, dotName, more, cut⟩ inner straight
  refine ⟨tree, fun confined => ?_⟩
  have allowed := confined through _ reaches inside
  rw [sandboxCheck_inside rfl (inConfigArea_of_inside inside)] at allowed
  rcases allowed with public' | ⟨read, _⟩ | listed
  · rw [common] at public'
    cases public'
  · cases read
  · cases listed

theorem ipcPath_short (payload : Path) :
    (ipcPath payload).length ≤ pathMax - 1 := length_take_le ..

/-- For every request path: whoever sends it, whatever it asks for and whatever
the tree, it is confined, unless dots after `/SYSTEM` hide the configuration
area from the check. -/
theorem config_area_confined (payload : Path) : (∀ ctx tree sender isWrite, Confined ctx tree sender
    (ipcPath payload) isWrite) ↔ ¬ HiddenByDots (ipcPath payload) := by
  constructor
  · intro confined hidden
    obtain ⟨tree, escapes⟩ := not_confined_of_hidden (ipcPath_short payload) hidden
    exact escapes (confined bareDriver tree 0 true)
  · intro clear ctx tree sender isWrite
    exact confined_of_not_hidden (ipcPath_short payload) clear

/-- `/SYSTEM/./CONFIG/Startup_modules`. -/
def dottedStartup : Path := "/SYSTEM/./CONFIG/Startup_modules".toList

/-- The system directories with the list of modules to start. -/
def systemTree : Tree :=
  spine ["SYSTEM".toList, "CONFIG".toList] (some "Startup_modules".toList)

/-- A driver without a place on the list opens the file for writing under the
dotted path, while the check refuses its canonical spelling. -/
theorem dotted_path_reaches_config :
    letsThrough bareDriver 0 dottedStartup true = true ∧
      sandboxCheck bareDriver 0 "/SYSTEM/CONFIG/Startup_modules".toList true = false ∧
      ¬ Confined bareDriver systemTree 0 dottedStartup true := by
  have through : letsThrough bareDriver 0 dottedStartup true = true := by decide
  refine ⟨through, by decide, fun confined => ?_⟩
  have located : Located (spineListing ["SYSTEM".toList, "CONFIG".toList]
      (some "Startup_modules".toList)) 0
      (["SYSTEM".toList, "CONFIG".toList].take 2) 2 :=
    spine_reached (by decide) (by decide) (le_refl 2)
  have reaches : Reaches systemTree dottedStartup
      ["SYSTEM".toList, "CONFIG".toList, "Startup_modules".toList] :=
    ⟨2, "Startup_modules".toList, _, by decide, located, by decide⟩
  have allowed := confined through _ reaches
    ⟨"SYSTEM".toList, "CONFIG".toList, _, rfl, by decide, by decide⟩
  exact absurd allowed (by decide)

end MainDob.Fs
