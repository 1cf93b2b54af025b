import Mathlib.Data.Finset.Card
import Peerc.Lib.PathNames

-- `realpath` of `posixpath`

inductive PathError
  | valueError
  | recursion
  deriving DecidableEq

-- What the operating system says about paths. It knows only finitely many of them: there are finitely many files,
-- and a path to one of them cannot be arbitrarily long.
structure Host where
  -- `os.stat` does not raise.
  stat  : Str → Bool
  -- `os.readlink`, of a symbolic link
  link? : Str → Option Str
  -- `os.getcwd()`
  cwd   : Str
  known : List Str
  stat_known : ∀ {p}, stat p → p ∈ known
  link_known : ∀ {p t}, link? p = some t → p ∈ known
  link_text  : ∀ {p t}, link? p = some t → t.IsPathText
  cwd_abs    : cwd.isAbs
  cwd_plain  : ¬[Str.slash, Str.slash] <+: cwd

namespace Host

open Str

-- The links that have been met, with the paths that they lead to, once these are known
abbrev Seen := List (Str × Option Str)

abbrev Resolved := Except PathError ((Str × Bool) × Seen)

-- The directory above, for `_joinrealpath`
def parent (path : Str) : Str :=
  if path = [] then pardir
  else if path.splitPath.snd = pardir then (path.splitPath.fst.joinPath pardir).joinPath pardir
  else path.splitPath.fst

variable (h : Host)

-- `os.path.exists(path)`
def pathExists (path : Str) : Bool :=
  path.IsPathText ∧ h.stat path

-- The loop of `_joinrealpath`, where `resolve` is its recursive call. `os.lstat` raises for what is no text of a
-- path.
def walk (resolve : Str → Str → Seen → Resolved) : (path : Str) → (rest : List Str) → Seen → Resolved
  | path, [],           seen => .ok ((path, true), seen)
  | path, name :: rest, seen =>
    if name = [] ∨ name = curdir then walk resolve path rest seen
    else if name = pardir then walk resolve (parent path) rest seen
    else
      let newpath := path.joinPath name
      if ¬newpath.IsPathText then .error .valueError
      else
        match h.link? newpath with
        | none        => walk resolve newpath rest seen
        | some target =>
          match seen.lookup newpath with
          | some (some path) => walk resolve path rest seen
          -- A loop of links
          | some none        => .ok ((newpath.joinAny (joinNames rest), false), seen)
          | none             =>
            match resolve path target ((newpath, none) :: seen) with
            | .error e                 => .error e
            | .ok ((path, true), seen)  => walk resolve path rest ((newpath, some path) :: seen)
            | .ok ((path, false), seen) => .ok ((path.joinAny (joinNames rest), false), seen)

-- `_joinrealpath`, with a bound for the depth of the recursion
def joinRealpath : (depth : Nat) → (path rest : Str) → Seen → Resolved
  | 0,         _,    _,    _    => .error .recursion
  | depth + 1, path, rest, seen =>
    if rest.isAbs then h.walk (joinRealpath depth) [slash] (components rest.tail) seen
    else h.walk (joinRealpath depth) path rest.components seen

def absolute (path : Str) : Str :=
  if path.isAbs then path else h.cwd.joinAny path

-- `os.path.abspath(path)`
def abspath (path : Str) : Str :=
  normpath (h.absolute path)

-- `os.path.realpath(path)`. No more than all links are nested.
def realpath (path : Str) : Except PathError Str := do
  let ((path, _), _) ← h.joinRealpath (h.known.length + 1) [] path []
  return h.abspath path

end Host

namespace Host

open Str

-- Where the loop of `_joinrealpath` can be
structure Clean (path : Str) : Prop where
  text  : path.IsPathText
  plain : ¬[slash, slash] <+: path

namespace Clean

variable {path name : Str}

theorem nil : Clean [] :=
  ⟨List.forall_mem_nil _, by decide⟩

theorem root : Clean [slash] :=
  ⟨isPathText_slash, by decide⟩

theorem of_prefix {q : Str} (h : Clean path) (hq : q <+: path) : Clean q :=
  ⟨fun c hc => h.text c (hq.subset hc), fun hp => h.plain (hp.trans hq)⟩

theorem joinPath (h : Clean path) (hn : slash ∉ name) (ht : name.IsPathText) : Clean (path.joinPath name) :=
  ⟨isPathText_joinPath.mpr ⟨h.text, ht⟩, plain_joinPath h.plain (not_isAbs_of_notMem hn)⟩

theorem parent (h : Clean path) : Clean (parent path) := by
  have ht : pardir.IsPathText := by decide
  have hn : slash ∉ pardir := by decide
  have hp : Clean path.splitPath.fst := by
    refine h.of_prefix ?_
    unfold splitPath
    extract_lets tail head
    split
    case isTrue => exact List.take_prefix _ _
    case isFalse =>
      refine List.IsPrefix.trans ?_ (List.take_prefix (path.length - path.basename.length) path)
      rw [← List.reverse_suffix, List.reverse_reverse]
      exact List.dropWhile_suffix _
  unfold Host.parent
  split
  case isTrue => exact ⟨ht, by decide⟩
  case isFalse =>
    split
    case isTrue => exact (hp.joinPath hn ht).joinPath hn ht
    case isFalse => exact hp

end Clean

variable {h : Host} {resolve : Str → Str → Seen → Resolved} {path : Str} {rest cs ds : List Str} {seen : Seen}

-- The components of a path are gone through one after the other.
theorem walk_append (ds : List Str) :
    (∀ e, h.walk resolve path cs seen = .error e → h.walk resolve path (cs ++ ds) seen = .error e) ∧
    ∀ q seen', h.walk resolve path cs seen = .ok ((q, true), seen') →
      h.walk resolve path (cs ++ ds) seen = h.walk resolve q ds seen' := by
  induction cs generalizing path seen
  case nil => simp [walk]
  case cons name cs hi =>
    rw [List.cons_append, walk, walk]
    split
    case isTrue => exact hi
    case isFalse =>
      split
      case isTrue => exact hi
      case isFalse =>
        extract_lets newpath
        split
        case isTrue => simp
        case isFalse =>
          split
          case h_1 => exact hi
          case h_2 =>
            split
            case h_1 => exact hi
            case h_2 => simp
            case h_3 =>
              split
              case h_1 => simp
              case h_2 => exact hi
              case h_3 => simp

-- After a loop what is left of the path stays as it is.
theorem walk_loop {q : Str} {seen' : Seen} (hw : h.walk resolve path cs seen = .ok ((q, false), seen')) :
    ∃ (base : Str) (rest : List Str), rest <:+ cs ∧ q = base.joinAny (joinNames rest) ∧ ∀ ds,
      h.walk resolve path (cs ++ ds) seen = .ok ((base.joinAny (joinNames (rest ++ ds)), false), seen') := by
  induction cs generalizing path seen
  case nil => simp [walk] at hw
  case cons name cs hi =>
    have hi {path : Str} {seen : Seen} (hw : h.walk resolve path cs seen = .ok ((q, false), seen')) :
        ∃ (base : Str) (rest : List Str), rest <:+ name :: cs ∧ q = base.joinAny (joinNames rest) ∧ ∀ ds,
          h.walk resolve path (cs ++ ds) seen = .ok ((base.joinAny (joinNames (rest ++ ds)), false), seen') := by
      obtain ⟨base, rest, hs, he⟩ := hi hw
      exact ⟨base, rest, hs.trans (List.suffix_cons name cs), he⟩
    simp only [List.cons_append, walk] at hw ⊢
    by_cases hn : name = [] ∨ name = curdir
    case pos =>
      simp only [if_pos hn] at hw ⊢
      exact hi hw
    case neg =>
      by_cases hp : name = pardir
      case pos =>
        simp only [if_neg hn, if_pos hp] at hw ⊢
        exact hi hw
      case neg =>
        by_cases ht : ¬(path.joinPath name).IsPathText
        case pos => simp only [if_neg hn, if_neg hp, if_pos ht, reduceCtorEq] at hw
        case neg =>
          simp only [if_neg hn, if_neg hp, if_neg ht] at hw ⊢
          cases hl : h.link? (path.joinPath name)
          case none =>
            simp only [hl] at hw ⊢
            exact hi hw
          case some target =>
            simp only [hl] at hw ⊢
            rcases hs : seen.lookup (path.joinPath name) with _ | _ | q'
            · simp only [hs] at hw ⊢
              rcases hr : resolve path target ((path.joinPath name, none) :: seen) with e | ⟨⟨q', _ | _⟩, seen''⟩
              · simp only [hr, reduceCtorEq] at hw
              · simp only [hr] at hw ⊢
                cases hw
                exact ⟨_, cs, List.suffix_cons name cs, rfl, fun ds => rfl⟩
              · simp only [hr] at hw ⊢
                exact hi hw
            · simp only [hs] at hw ⊢
              cases hw
              exact ⟨_, cs, List.suffix_cons name cs, rfl, fun ds => rfl⟩
            · simp only [hs] at hw ⊢
              exact hi hw

-- The links that have been seen, each of which is known to the system
structure Tidy (h : Host) (seen : Seen) : Prop where
  known : ∀ kv ∈ seen, kv.fst ∈ h.known
  clean : ∀ kv ∈ seen, ∀ path, kv.snd = some path → Clean path

def keys (seen : Seen) : Finset Str :=
  (seen.map Prod.fst).toFinset

-- The links that have not been seen are fewer than the calls that may still be nested.
def Room (h : Host) (depth : Nat) (seen : Seen) : Prop :=
  h.known.length < depth + (keys seen).card

-- What a call returns
structure Outcome (h : Host) (seen : Seen) (path : Str) (ok : Bool) (seen' : Seen) : Prop where
  clean : ok → Clean path
  tidy  : Tidy h seen'
  keys  : keys seen ⊆ keys seen'

def Settles (h : Host) (seen : Seen) (r : Resolved) : Prop :=
  ∃ path ok seen', r = .ok ((path, ok), seen') ∧ Outcome h seen path ok seen'

theorem Room.mono {depth : Nat} {seen' : Seen} (hr : Room h depth seen) (hk : keys seen ⊆ keys seen') :
    Room h depth seen' :=
  hr.trans_le (Nat.add_le_add_left (Finset.card_le_card hk) depth)

theorem Tidy.not_room (ht : Tidy h seen) : ¬Room h 0 seen := by
  have hs : keys seen ⊆ h.known.toFinset := by
    intro p hp
    obtain ⟨kv, hkv, rfl⟩ := List.mem_map.mp (List.mem_toFinset.mp hp)
    exact List.mem_toFinset.mpr (ht.known kv hkv)
  have hc := (Finset.card_le_card hs).trans h.known.toFinset_card_le
  rw [Room, Nat.zero_add]
  exact not_lt.mpr hc

theorem Tidy.cons {v : Option Str} (ht : Tidy h seen) (hk : path ∈ h.known) (hv : ∀ q, v = some q → Clean q) :
    Tidy h ((path, v) :: seen) :=
  ⟨List.forall_mem_cons.mpr ⟨hk, ht.known⟩, List.forall_mem_cons.mpr ⟨hv, ht.clean⟩⟩

theorem keys_cons {v : Option Str} : keys ((path, v) :: seen) = insert path (keys seen) := by
  rw [keys, List.map_cons, List.toFinset_cons, keys]

theorem Room.cons {depth : Nat} {v : Option Str} (hr : Room h (depth + 1) seen) (hs : seen.lookup path = none) :
    Room h depth ((path, v) :: seen) := by
  have hn : path ∉ keys seen := by
    intro hp
    obtain ⟨kv, hkv, he⟩ := List.mem_map.mp (List.mem_toFinset.mp hp)
    have := List.lookup_eq_none_iff.mp hs kv hkv
    simp [he] at this
  rw [Room, keys_cons, Finset.card_insert_of_notMem hn]
  exact hr.trans_eq (Nat.add_right_comm _ _ _)

theorem walk_settles {depth : Nat}
    (hresolve : ∀ {path target seen}, Clean path → target.IsPathText → Tidy h seen → Room h depth seen →
      Settles h seen (resolve path target seen))
    (hp : Clean path) (hn : ∀ name ∈ rest, slash ∉ name) (ht : Tidy h seen) (hr : Room h (depth + 1) seen) :
    Settles h seen (h.walk resolve path rest seen) ∨
    (h.walk resolve path rest seen = .error .valueError ∧ ∃ name ∈ rest, ¬name.IsPathText) := by
  induction rest generalizing path seen
  case nil => exact .inl ⟨path, true, seen, rfl, fun _ => hp, ht, Finset.Subset.refl _⟩
  case cons name rest hi =>
    obtain ⟨hname, hrest⟩ := List.forall_mem_cons.mp hn
    -- What is left of the path, from wherever it is entered
    have hi {path : Str} {seen' : Seen} (hp : Clean path) (ht : Tidy h seen') (hk : keys seen ⊆ keys seen') :
        Settles h seen (h.walk resolve path rest seen') ∨
        (h.walk resolve path rest seen' = .error .valueError ∧ ∃ n ∈ name :: rest, ¬n.IsPathText) := by
      refine (hi hp hrest ht (hr.mono hk)).imp ?_ ?_
      · rintro ⟨q, ok, seen'', he, ho⟩
        exact ⟨q, ok, seen'', he, ho.clean, ho.tidy, hk.trans ho.keys⟩
      · rintro ⟨he, n, hn, htext⟩
        exact ⟨he, n, List.mem_cons_of_mem _ hn, htext⟩
    rw [walk]
    split
    case isTrue => exact hi hp ht (Finset.Subset.refl _)
    case isFalse =>
      split
      case isTrue => exact hi hp.parent ht (Finset.Subset.refl _)
      case isFalse =>
        extract_lets newpath
        by_cases htext : name.IsPathText
        case neg =>
          rw [if_pos fun h => htext (isPathText_joinPath.mp h).right]
          exact .inr ⟨rfl, name, List.mem_cons_self, htext⟩
        case pos =>
          have hnew : Clean newpath := hp.joinPath hname htext
          rw [if_neg (not_not.mpr hnew.text)]
          cases hl : h.link? newpath
          case none => exact hi hnew ht (Finset.Subset.refl _)
          case some target =>
            have hk := h.link_known hl
            cases hs : seen.lookup newpath
            case some v =>
              obtain ⟨l₁, l₂, he, -⟩ := List.lookup_eq_some_iff.mp hs
              have hm : (newpath, v) ∈ seen := he ▸ List.mem_append_right _ List.mem_cons_self
              cases v
              case none => exact .inl ⟨_, false, seen, rfl, nofun, ht, Finset.Subset.refl _⟩
              case some q => exact hi (ht.clean _ hm q rfl) ht (Finset.Subset.refl _)
            case none =>
              have ht₁ : Tidy h ((newpath, none) :: seen) := ht.cons hk nofun
              obtain ⟨q, ok, seen', he, ho⟩ := hresolve hp (h.link_text hl) ht₁ (hr.cons hs)
              have hsub : keys seen ⊆ keys seen' :=
                (keys_cons ▸ Finset.subset_insert _ _ : keys seen ⊆ keys ((newpath, none) :: seen)).trans ho.keys
              simp only [he]
              cases ok
              case false => exact .inl ⟨_, false, seen', rfl, nofun, ho.tidy, hsub⟩
              case true =>
                refine hi (ho.clean rfl) (ho.tidy.cons hk fun r hr => Option.some.inj hr ▸ ho.clean rfl) ?_
                rw [keys_cons]
                exact hsub.trans (Finset.subset_insert _ _)

theorem joinRealpath_settles {depth : Nat} {target : Str} (hp : Clean path) (ht : Tidy h seen)
    (hr : Room h depth seen) : Settles h seen (h.joinRealpath depth path target seen) ∨
      (h.joinRealpath depth path target seen = .error .valueError ∧ ¬target.IsPathText) := by
  induction depth generalizing path target seen
  case zero => exact absurd hr ht.not_room
  case succ depth hi =>
    have hresolve {path target : Str} {seen : Seen} (hp : Clean path) (htext : target.IsPathText)
        (ht : Tidy h seen) (hr : Room h depth seen) : Settles h seen (h.joinRealpath depth path target seen) :=
      (hi hp ht hr).resolve_right fun he => he.right htext
    rw [joinRealpath]
    split
    case isTrue ha =>
      refine (walk_settles hresolve .root (fun n => slash_notMem_of_mem_components) ht hr).imp_right ?_
      rintro ⟨he, n, hn, htext⟩
      exact ⟨he, fun h => htext (IsPathText.components (fun c hc => h c (List.mem_of_mem_tail hc)) n hn)⟩
    case isFalse =>
      refine (walk_settles hresolve hp (fun n => slash_notMem_of_mem_components) ht hr).imp_right ?_
      rintro ⟨he, n, hn, htext⟩
      exact ⟨he, fun h => htext (h.components n hn)⟩

-- A name in a directory is looked up where the directory is.

theorem walk_joinPath {q dir name : Str} {seen' : Seen} (hn : slash ∉ name)
    (hw : h.walk resolve path dir.components seen = .ok ((q, true), seen')) :
    h.walk resolve path (dir.joinPath name).components seen = h.walk resolve q [name] seen' := by
  obtain ⟨cs, he, ⟨hc, -⟩ | hc⟩ := components_joinPath dir hn
  case inl =>
    rw [hc] at hw
    rw [he]
    exact (walk_append [name]).right q seen' hw
  case inr =>
    rw [hc] at hw
    rw [he]
    rcases hr : h.walk resolve path cs seen with e | ⟨⟨q', _ | _⟩, seen''⟩
    · cases ((walk_append [[]]).left e hr).symm.trans hw
    · obtain ⟨_, _, -, -, hloop⟩ := walk_loop hr
      cases (hloop [[]]).symm.trans hw
    · cases ((walk_append [[]]).right q' seen'' hr).symm.trans hw
      exact (walk_append [name]).right _ _ hr

theorem walk_joinPath_of_loop {q dir name : Str} {seen' : Seen} (hn : slash ∉ name)
    (hw : h.walk resolve path dir.components seen = .ok ((q, false), seen')) :
    h.walk resolve path (dir.joinPath name).components seen = .ok ((q.joinPath name, false), seen') := by
  have ha := not_isAbs_of_notMem hn
  obtain ⟨cs, he, ⟨hc, hl⟩ | hc⟩ := components_joinPath dir hn
  case inl =>
    rw [hc] at hw
    rw [he]
    obtain ⟨base, rest, hs, rfl, hloop⟩ := walk_loop hw
    have hrest : ∀ m ∈ rest, slash ∉ m := fun m hm => slash_notMem_of_mem_components (hc ▸ hs.subset hm)
    have hlast : rest.getLast? ≠ some [] := by
      intro h
      obtain ⟨front, rfl⟩ := hs
      exact hl (by rw [List.getLast?_append, h, Option.some_or])
    rw [hloop, joinNames_concat_of_ne hrest hlast hn, joinAny_joinPath ha]
  case inr =>
    rw [hc] at hw
    rw [he]
    rcases hr : h.walk resolve path cs seen with e | ⟨⟨q', _ | _⟩, seen''⟩
    · cases ((walk_append [[]]).left e hr).symm.trans hw
    · obtain ⟨base, rest, -, -, hloop⟩ := walk_loop hr
      cases (hloop [[]]).symm.trans hw
      rw [hloop, joinNames_concat_eq, joinAny_joinPath ha]
    · cases ((walk_append [[]]).right q' seen'' hr).symm.trans hw

theorem joinRealpath_eq_walk {depth : Nat} (dir : Str) {name : Str} (hn : slash ∉ name) : ∃ (start rest : Str),
    h.joinRealpath (depth + 1) path dir seen = h.walk (h.joinRealpath depth) start rest.components seen ∧
    h.joinRealpath (depth + 1) path (dir.joinPath name) seen =
      h.walk (h.joinRealpath depth) start (rest.joinPath name).components seen := by
  have ha := isAbs_joinPath (s := dir) (not_isAbs_of_notMem hn)
  rw [joinRealpath, joinRealpath]
  by_cases hdir : dir.isAbs
  case pos =>
    rw [if_pos hdir, if_pos (ha.mpr hdir), tail_joinPath hdir]
    exact ⟨[slash], dir.tail, rfl, rfl⟩
  case neg =>
    rw [if_neg hdir, if_neg (mt ha.mp hdir)]
    exact ⟨path, dir, rfl, rfl⟩

-- Absolute paths

theorem isAbs_absolute (h : Host) (path : Str) : (h.absolute path).isAbs := by
  unfold absolute
  split
  case isTrue ha => exact ha
  case isFalse ha =>
    rw [joinAny, if_neg ha]
    exact (isAbs_joinPath ha).mpr h.cwd_abs

theorem initialSlashes_absolute : (h.absolute path).initialSlashes = 2 ↔ path.initialSlashes = 2 := by
  unfold absolute
  split
  case isTrue => rfl
  case isFalse ha =>
    have hcwd := initialSlashes_of_plain ((isAbs_joinPath ha).mpr h.cwd_abs) (plain_joinPath h.cwd_plain ha)
    have hpath : path.initialSlashes = 0 := initialSlashes_of_not_isAbs ha
    rw [joinAny, if_neg ha, hcwd, hpath]
    decide

theorem isAbs_abspath (h : Host) (path : Str) : (h.abspath path).isAbs :=
  isAbs_normpath (isAbs_absolute h path)

theorem isCanonical_abspath : (h.abspath path).IsCanonical ↔ path.initialSlashes ≠ 2 :=
  (isCanonical_normpath (isAbs_absolute h path)).trans (not_congr initialSlashes_absolute)

theorem Clean.isCanonical_abspath (hp : Clean path) : (h.abspath path).IsCanonical :=
  Host.isCanonical_abspath.mpr fun hi => hp.plain (prefix_of_initialSlashes hi)

theorem absolute_joinPath {name : Str} (hn : ¬name.isAbs) :
    h.absolute (path.joinPath name) = (h.absolute path).joinPath name := by
  have ha := isAbs_joinPath (s := path) hn
  unfold absolute
  by_cases hp : path.isAbs
  case pos => rw [if_pos hp, if_pos (ha.mpr hp)]
  case neg => rw [if_neg hp, if_neg (mt ha.mp hp), joinAny_joinPath hn]

theorem names_abspath_joinPath {name : Str} (hne : name ≠ []) (hcur : name ≠ curdir) (hpar : name ≠ pardir)
    (hn : slash ∉ name) : (h.abspath (path.joinPath name)).names = (h.abspath path).names ++ [name] := by
  rw [abspath, abspath, names_normpath (isAbs_absolute h _), names_normpath (isAbs_absolute h _),
    absolute_joinPath (not_isAbs_of_notMem hn), normNames_joinPath hne hcur hpar hn]

theorem tidy_nil : Tidy h [] :=
  ⟨List.forall_mem_nil _, List.forall_mem_nil _⟩

theorem room_nil : Room h (h.known.length + 1) [] :=
  Nat.lt_succ_self _

-- The real path of a directory, and of a name in it. A directory may lead into a loop of links, which `realpath`
-- leaves as it is.

def Resolves (h : Host) (dir : Str) : Prop :=
  ∃ path seen, h.joinRealpath (h.known.length + 1) [] dir [] = .ok ((path, true), seen)

theorem Resolves.realpath {dir : Str} (hd : h.Resolves dir) :
    ∃ root, h.realpath dir = .ok root ∧ root.IsCanonical ∧
      ∀ name : Str, name ≠ [] → name ≠ curdir → name ≠ pardir → slash ∉ name →
        (name.IsPathText → ∃ p, h.realpath (dir.joinPath name) = .ok p ∧ p.isAbs) ∧
        (¬name.IsPathText → h.realpath (dir.joinPath name) = .error .valueError) := by
  obtain ⟨path, seen, hd⟩ := hd
  have hs : Settles h [] (h.joinRealpath (h.known.length + 1) [] dir []) ∨ _ :=
    joinRealpath_settles .nil tidy_nil room_nil
  rw [hd] at hs
  obtain ⟨_, _, _, he, ho⟩ := hs.resolve_right fun h => by cases h.left
  cases he
  refine ⟨h.abspath path, by rw [Host.realpath, hd]; rfl, (ho.clean rfl).isCanonical_abspath, ?_⟩
  intro name hne hcur hpar hn
  obtain ⟨start, rest, hdir, hj⟩ := joinRealpath_eq_walk (h := h) dir hn
  rw [walk_joinPath hn (hdir.symm.trans hd)] at hj
  constructor
  · intro ht
    have hresolve {path target : Str} {seen : Seen} (hp : Clean path) (htext : target.IsPathText) (ht : Tidy h seen)
        (hr : Room h h.known.length seen) : Settles h seen (h.joinRealpath h.known.length path target seen) :=
      (joinRealpath_settles hp ht hr).resolve_right fun he => he.right htext
    have hok : Settles h seen (h.walk (h.joinRealpath h.known.length) path [name] seen) := by
      refine (walk_settles hresolve (ho.clean rfl) (List.forall_mem_singleton.mpr hn) ho.tidy
        (room_nil.mono ho.keys)).resolve_right ?_
      rintro ⟨-, n, hn, htext⟩
      exact htext (List.mem_singleton.mp hn ▸ ht)
    obtain ⟨p, ok, seen', he, -⟩ := hok
    refine ⟨h.abspath p, ?_, isAbs_abspath h p⟩
    rw [Host.realpath, hj, he]
    rfl
  · intro ht
    have hw : h.walk (h.joinRealpath h.known.length) path [name] seen = .error .valueError := by
      have hjoin : ¬(path.joinPath name).IsPathText := fun h => ht (isPathText_joinPath.mp h).right
      rw [walk, if_neg (not_or.mpr ⟨hne, hcur⟩), if_neg hpar]
      exact if_pos hjoin
    rw [Host.realpath, hj, hw]
    rfl

-- What is left of the path behind the loop may begin with two slashes, which `normpath` keeps.
def Loops (h : Host) (dir : Str) : Prop :=
  ∃ path seen, h.joinRealpath (h.known.length + 1) [] dir [] = .ok ((path, false), seen) ∧ path.initialSlashes ≠ 2

theorem realpath_of_loop {dir q : Str} (hd : h.joinRealpath (h.known.length + 1) [] dir [] = .ok ((q, false), seen)) :
    h.realpath dir = .ok (h.abspath q) ∧
    ∀ name : Str, slash ∉ name → h.realpath (dir.joinPath name) = .ok (h.abspath (q.joinPath name)) := by
  refine ⟨by rw [realpath, hd]; rfl, fun name hn => ?_⟩
  obtain ⟨start, rest, hdir, hj⟩ := joinRealpath_eq_walk (h := h) dir hn
  rw [walk_joinPath_of_loop hn (hdir.symm.trans hd)] at hj
  rw [realpath, hj]
  rfl

-- Without links every text of a path resolves.

theorem walk_of_linkless (hl : ∀ p, h.link? p = none) (hp : Clean path) (hn : ∀ name ∈ rest, slash ∉ name)
    (ht : ∀ name ∈ rest, name.IsPathText) : ∃ q, Clean q ∧ h.walk resolve path rest seen = .ok ((q, true), seen) := by
  induction rest generalizing path
  case nil => exact ⟨path, hp, rfl⟩
  case cons name rest hi =>
    obtain ⟨hname, hrest⟩ := List.forall_mem_cons.mp hn
    obtain ⟨htext, hrestText⟩ := List.forall_mem_cons.mp ht
    rw [walk]
    split
    case isTrue => exact hi hp hrest hrestText
    case isFalse =>
      split
      case isTrue => exact hi hp.parent hrest hrestText
      case isFalse =>
        have hnew : Clean (path.joinPath name) := hp.joinPath hname htext
        simp only [if_neg (not_not.mpr hnew.text), hl]
        exact hi hnew hrest hrestText

theorem joinRealpath_of_linkless {depth : Nat} {target : Str} (hl : ∀ p, h.link? p = none) (hp : Clean path)
    (ht : target.IsPathText) :
    ∃ q, Clean q ∧ h.joinRealpath (depth + 1) path target seen = .ok ((q, true), seen) := by
  rw [joinRealpath]
  split
  case isTrue =>
    exact walk_of_linkless hl .root (fun n => slash_notMem_of_mem_components)
      (IsPathText.components fun c hc => ht c (List.mem_of_mem_tail hc))
  case isFalse => exact walk_of_linkless hl hp (fun n => slash_notMem_of_mem_components) ht.components

theorem realpath_of_linkless {dir : Str} (hl : ∀ p, h.link? p = none) (hd : dir.IsPathText) :
    ∃ q, Clean q ∧ h.realpath dir = .ok (h.abspath q) ∧
      ∀ name : Str, name ≠ [] → name ≠ curdir → name ≠ pardir → slash ∉ name → name.IsPathText →
        h.realpath (dir.joinPath name) = .ok (h.abspath (q.joinPath name)) := by
  obtain ⟨q, hq, hr⟩ : ∃ q, Clean q ∧ h.joinRealpath (h.known.length + 1) [] dir [] = .ok ((q, true), []) :=
    joinRealpath_of_linkless hl .nil hd
  refine ⟨q, hq, by rw [realpath, hr]; rfl, fun name hne hcur hpar hn ht => ?_⟩
  obtain ⟨start, rest, hdir, hj⟩ := joinRealpath_eq_walk (h := h) dir hn
  have hnew : (q.joinPath name).IsPathText := (hq.joinPath hn ht).text
  have hw : h.walk (h.joinRealpath h.known.length) q [name] [] = .ok ((q.joinPath name, true), []) := by
    simp only [walk, if_neg (not_or.mpr ⟨hne, hcur⟩), if_neg hpar, if_neg (not_not.mpr hnew), hl]
  rw [walk_joinPath hn (hdir.symm.trans hr), hw] at hj
  rw [realpath, hj]
  rfl

theorem resolves_of_linkless {dir : Str} (hl : ∀ p, h.link? p = none) (hd : dir.IsPathText) : h.Resolves dir := by
  obtain ⟨q, -, hr⟩ := joinRealpath_of_linkless hl .nil hd
  exact ⟨q, [], hr⟩

end Host
