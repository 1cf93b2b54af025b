import Mathlib.Data.List.TakeWhile
import Peerc.Lib.Path

-- Paths as sequences of names, with `normpath` and `commonpath` of `posixpath`

namespace Str

def curdir : Str := [dot]

def pardir : Str := [dot, dot]

def isAbs (s : Str) : Bool :=
  s.head? = some slash

-- `s.split("/")` and `"/".join(names)`

def components (s : Str) : List Str :=
  s.splitOn slash

def joinNames (names : List Str) : Str :=
  List.intercalate [slash] names

-- `os.path.join(s, t)`
def joinAny (s t : Str) : Str :=
  if t.isAbs then t else s.joinPath t

-- `os.path.split(s)`
def splitPath (s : Str) : Str × Str :=
  let tail := s.basename
  let head := s.take (s.length - tail.length)
  if head.all (· = slash) then (head, tail)
  else ((head.reverse.dropWhile (· = slash)).reverse, tail)

-- `os.path.normpath(s)`

-- POSIX gives a meaning of its own to two slashes at the beginning.
def initialSlashes (s : Str) : Nat :=
  match s.takeWhile (· = slash) with
  | []     => 0
  | [_, _] => 2
  | _      => 1

def pushName (absolute : Bool) (names : List Str) (name : Str) : List Str :=
  if name = [] ∨ name = curdir then names
  else if name ≠ pardir ∨ (¬absolute ∧ names = []) ∨ names.getLast? = some pardir then names ++ [name]
  else names.dropLast

def normpath (s : Str) : Str :=
  let slashes := s.initialSlashes
  let text := List.replicate slashes slash ++ joinNames (s.components.foldl (pushName (slashes ≠ 0)) [])
  if text = [] then curdir else text

-- What `commonpath` compares

def names (s : Str) : List Str :=
  s.components.filter fun name => name ≠ [] ∧ name ≠ curdir

def commonNames : List Str → List Str → List Str
  | m :: ms, n :: ns => if m = n then m :: commonNames ms ns else []
  | _,       _       => []

-- `os.path.commonpath([s, t])`, which mixes no absolute and relative paths
def commonpath (s t : Str) : Option Str :=
  if s.isAbs = t.isAbs then
    some ((if s.isAbs then [slash] else []) ++ joinNames (commonNames s.names t.names))
  else none

variable {s t n : Str} {c : CodePoint}

-- The components of a path

theorem components_cons_slash : components (slash :: s) = [] :: components s := by
  rw [components, List.splitOn, List.splitOnP_cons_eq_if_modifyHead, if_pos (beq_self_eq_true _), components,
    List.splitOn]

theorem components_cons (h : c ≠ slash) : ∃ n ns, components s = n :: ns ∧ components (c :: s) = (c :: n) :: ns := by
  have hc : components (c :: s) = (components s).modifyHead (c :: ·) := by
    rw [components, List.splitOn, List.splitOnP_cons_eq_if_modifyHead, if_neg (by simpa using h), components,
      List.splitOn]
  cases hs : components s
  case nil => exact absurd hs (List.splitOnP_ne_nil _ _)
  case cons n ns => exact ⟨n, ns, rfl, by rw [hc, hs, List.modifyHead_cons]⟩

theorem components_append : components (s ++ slash :: t) = components s ++ components t :=
  List.splitOnP_append_cons _ _ (beq_self_eq_true _)

theorem components_of_notMem (h : slash ∉ n) : components n = [n] := by
  have hs := List.splitOn_intercalate slash (List.forall_mem_singleton.mpr h) (List.cons_ne_nil n [])
  rwa [List.intercalate_singleton] at hs

theorem of_mem_components (h : n ∈ components s) : ∀ c ∈ n, c ≠ slash ∧ c ∈ s := by
  induction s generalizing n
  case nil =>
    rw [List.mem_singleton.mp h]
    exact List.forall_mem_nil _
  case cons d s hi =>
    have hs {n : Str} (hn : n ∈ components s) : ∀ c ∈ n, c ≠ slash ∧ c ∈ d :: s :=
      fun c hc => (hi hn c hc).imp_right (List.mem_cons_of_mem _)
    by_cases hd : d = slash
    case pos =>
      rw [hd, components_cons_slash] at h
      rcases List.mem_cons.mp h with rfl | h
      · exact List.forall_mem_nil _
      · exact hs h
    case neg =>
      obtain ⟨m, ns, hm, he⟩ := components_cons (s := s) hd
      rw [he] at h
      rw [hm] at hs
      rcases List.mem_cons.mp h with rfl | h
      · exact List.forall_mem_cons.mpr ⟨⟨hd, List.mem_cons_self⟩, hs List.mem_cons_self⟩
      · exact hs (List.mem_cons_of_mem _ h)

theorem slash_notMem_of_mem_components (h : n ∈ components s) : slash ∉ n :=
  fun hc => (of_mem_components h slash hc).left rfl

theorem joinNames_components : joinNames (components s) = s :=
  List.intercalate_splitOn slash

theorem joinNames_concat (ns : List Str) : joinNames (ns ++ [n]) = joinNames (ns ++ [[]]) ++ n := by
  induction ns
  case nil => simp [joinNames]
  case cons m ns hi =>
    have hc (k : Str) : joinNames (m :: (ns ++ [k])) = m ++ [slash] ++ joinNames (ns ++ [k]) :=
      List.intercalate_cons_of_ne_nil (by simp)
    rw [List.cons_append, List.cons_append, hc, hc, hi, List.append_assoc _ _ n]

-- A path that ends with an empty name is empty or ends with a slash.
theorem joinNames_concat_nil (ns : List Str) :
    joinNames (ns ++ [[]]) = [] ∨ (joinNames (ns ++ [[]])).getLast? = some slash := by
  induction ns
  case nil => exact .inl rfl
  case cons m ns hi =>
    have hc : joinNames (m :: (ns ++ [[]])) = m ++ [slash] ++ joinNames (ns ++ [[]]) :=
      List.intercalate_cons_of_ne_nil (by simp)
    rw [List.cons_append, hc]
    right
    rcases hi with h | h
    · rw [h, List.append_nil, List.getLast?_concat]
    · rw [List.getLast?_append, h, Option.some_or]

theorem components_joinPath (s : Str) (hn : slash ∉ n) : ∃ cs, components (s.joinPath n) = cs ++ [n] ∧
    ((components s = cs ∧ cs.getLast? ≠ some []) ∨ components s = cs ++ [[]]) := by
  unfold joinPath
  split
  case isTrue h =>
    rcases h with rfl | h
    · exact ⟨[], components_of_notMem hn, .inr rfl⟩
    · obtain ⟨s', rfl⟩ := List.getLast?_eq_some_iff.mp h
      refine ⟨components s', ?_, .inr components_append⟩
      rw [List.append_assoc, List.singleton_append, components_append, components_of_notMem hn]
  case isFalse h =>
    refine ⟨components s, by rw [components_append, components_of_notMem hn], .inl ⟨rfl, fun hl => h ?_⟩⟩
    obtain ⟨cs, hc⟩ := List.getLast?_eq_some_iff.mp hl
    rw [← joinNames_components (s := s), hc]
    exact joinNames_concat_nil cs

theorem exists_joinPath_eq (s : Str) :
    ∃ r : Str, (r = [] ∨ r.getLast? = some slash) ∧ ∀ t, s.joinPath t = r ++ t := by
  by_cases hs : s = [] ∨ s.getLast? = some slash
  case pos => exact ⟨s, hs, fun t => if_pos hs⟩
  case neg =>
    refine ⟨s ++ [slash], .inr List.getLast?_concat, fun t => ?_⟩
    rw [joinPath, if_neg hs, List.append_assoc, List.singleton_append]

theorem joinPath_assoc (s t n : Str) : s.joinPath (t.joinPath n) = (s.joinPath t).joinPath n := by
  obtain ⟨r, hr, he⟩ := exists_joinPath_eq s
  rw [he, he]
  cases t
  case nil => rw [List.append_nil, joinPath, joinPath, if_pos (.inl rfl), if_pos hr, List.nil_append]
  case cons c t =>
    have hl : (r ++ c :: t).getLast? = (c :: t).getLast? :=
      List.getLast?_append_of_ne_nil r (List.cons_ne_nil c t)
    simp only [joinPath, hl, List.append_ne_nil_of_right_ne_nil r (List.cons_ne_nil c t), List.cons_ne_nil, false_or]
    split <;> rw [List.append_assoc]

-- A name that is added to a path without a slash at its end, and to one with it

theorem joinNames_concat_of_ne {ns : List Str} (hs : ∀ m ∈ ns, slash ∉ m) (hl : ns.getLast? ≠ some [])
    (hn : slash ∉ n) : joinNames (ns ++ [n]) = (joinNames ns).joinPath n := by
  by_cases hne : ns = []
  case pos =>
    subst hne
    exact List.intercalate_singleton
  case neg =>
    have hc : components (joinNames ns) = ns := List.splitOn_intercalate slash hs hne
    obtain ⟨cs, he, h⟩ := components_joinPath (joinNames ns) hn
    rw [hc] at h
    rcases h with ⟨rfl, -⟩ | rfl
    · rw [← he, joinNames_components]
    · exact absurd List.getLast?_concat hl

theorem joinNames_concat_eq (ns : List Str) (n : Str) :
    joinNames (ns ++ [n]) = (joinNames (ns ++ [[]])).joinPath n := by
  rw [joinNames_concat, joinPath, if_pos (joinNames_concat_nil ns)]

theorem mem_of_mem_strip (h : c ∈ s.strip) : c ∈ s :=
  (List.dropWhile_sublist _).subset
    (List.mem_reverse.mp ((List.dropWhile_sublist _).subset (List.mem_reverse.mp h)))

theorem of_mem_basename (h : c ∈ s.basename) : c ∈ s ∧ c ≠ slash := by
  have hc := List.mem_reverse.mp h
  have hne := List.mem_takeWhile_imp hc
  exact ⟨List.mem_reverse.mp ((List.takeWhile_sublist _).subset hc), of_decide_eq_true hne⟩

-- Slashes at the beginning

theorem isAbs_iff : s.isAbs ↔ ∃ t, s = slash :: t := by
  rw [isAbs, decide_eq_true_iff, List.head?_eq_some_iff]

theorem not_isAbs_of_notMem (h : slash ∉ s) : ¬s.isAbs := by
  intro ha
  obtain ⟨t, rfl⟩ := isAbs_iff.mp ha
  exact h List.mem_cons_self

theorem isAbs_joinPath (ht : ¬t.isAbs) : (s.joinPath t).isAbs ↔ s.isAbs := by
  unfold joinPath
  cases s
  case nil => simpa [isAbs] using ht
  case cons c s => split <;> rfl

theorem tail_joinPath (hs : s.isAbs) : (s.joinPath t).tail = joinPath s.tail t := by
  obtain ⟨u, rfl⟩ := isAbs_iff.mp hs
  cases u
  case nil => rfl
  case cons c u =>
    simp only [joinPath, List.getLast?_cons_cons, List.cons_ne_nil, false_or, List.tail_cons]
    split <;> rfl

theorem joinAny_joinPath (hn : ¬n.isAbs) : s.joinAny (t.joinPath n) = (s.joinAny t).joinPath n := by
  have ha := isAbs_joinPath (s := t) hn
  by_cases ht : t.isAbs
  case pos => rw [joinAny, joinAny, if_pos ht, if_pos (ha.mpr ht)]
  case neg => rw [joinAny, joinAny, if_neg ht, if_neg (mt ha.mp ht), joinPath_assoc]

theorem plain_joinPath (hs : ¬[slash, slash] <+: s) (ht : ¬t.isAbs) : ¬[slash, slash] <+: s.joinPath t := by
  have ht {u : Str} (hp : slash :: u <+: t) : False := by
    obtain ⟨v, rfl⟩ := hp
    exact ht rfl
  intro hp
  unfold joinPath at hp
  rcases s with _ | ⟨c, _ | ⟨d, s⟩⟩
  · exact ht hp
  · split at hp
    case isTrue hc => exact ht (List.cons_prefix_cons.mp hp).right
    case isFalse hc =>
      refine hc (.inr ?_)
      rw [(List.cons_prefix_cons.mp hp).left]
      rfl
  · refine hs ?_
    split at hp <;>
    · obtain ⟨hc, hp⟩ := List.cons_prefix_cons.mp hp
      obtain ⟨hd, -⟩ := List.cons_prefix_cons.mp hp
      rw [← hc, ← hd]
      exact ⟨s, rfl⟩

-- The text of a path

theorem isPathText_append : (s ++ t).IsPathText ↔ s.IsPathText ∧ t.IsPathText :=
  List.forall_mem_append

theorem isPathText_slash : IsPathText [slash] := by
  decide

theorem isPathText_joinPath : (s.joinPath t).IsPathText ↔ s.IsPathText ∧ t.IsPathText := by
  unfold joinPath
  split
  case isTrue => exact isPathText_append
  case isFalse =>
    rw [← List.singleton_append, isPathText_append, isPathText_append, and_iff_right isPathText_slash]

theorem IsPathText.components (h : s.IsPathText) : ∀ n ∈ s.components, n.IsPathText :=
  fun _ hn c hc => h c (of_mem_components hn c hc).right

-- What `normpath` and `commonpath` return

theorem names_slash_joinNames {ns : List Str} (h : ∀ n ∈ ns, n ≠ [] ∧ n ≠ curdir ∧ slash ∉ n) :
    names (slash :: joinNames ns) = ns := by
  rw [names, components_cons_slash, List.filter_cons_of_neg (by simp)]
  cases ns
  case nil => rfl
  case cons n ns =>
    have hs : components (joinNames (n :: ns)) = n :: ns :=
      List.splitOn_intercalate slash (fun n hn => (h n hn).right.right) (List.cons_ne_nil _ _)
    rw [hs, List.filter_eq_self]
    exact fun n hn => decide_eq_true ⟨(h n hn).left, (h n hn).right.left⟩

theorem of_mem_names (h : n ∈ names s) : n ≠ [] ∧ n ≠ curdir ∧ slash ∉ n := by
  obtain ⟨hc, hn⟩ := List.mem_filter.mp h
  obtain ⟨h₁, h₂⟩ := of_decide_eq_true hn
  exact ⟨h₁, h₂, slash_notMem_of_mem_components hc⟩

-- An absolute path with one slash at the beginning, and without empty names and dots
def IsCanonical (s : Str) : Prop :=
  s = slash :: joinNames s.names

theorem of_mem_pushNames {absolute : Bool} {cs acc : List Str} (hc : ∀ n ∈ cs, slash ∉ n)
    (ha : ∀ n ∈ acc, n ≠ [] ∧ n ≠ curdir ∧ slash ∉ n) :
    ∀ n ∈ cs.foldl (pushName absolute) acc, n ≠ [] ∧ n ≠ curdir ∧ slash ∉ n := by
  induction cs generalizing acc
  case nil => exact ha
  case cons c cs hi =>
    obtain ⟨hc, hcs⟩ := List.forall_mem_cons.mp hc
    refine hi hcs ?_
    unfold pushName
    split
    case isTrue => exact ha
    case isFalse hne =>
      rw [not_or] at hne
      split
      case isTrue =>
        rw [List.forall_mem_append]
        exact ⟨ha, List.forall_mem_singleton.mpr ⟨hne.left, hne.right, hc⟩⟩
      case isFalse => exact fun n hn => ha n ((List.dropLast_sublist _).subset hn)

theorem initialSlashes_of_plain (ha : s.isAbs) (hp : ¬[slash, slash] <+: s) : s.initialSlashes = 1 := by
  obtain ⟨t, rfl⟩ := List.head?_eq_some_iff.mp (of_decide_eq_true ha)
  have ht : t.takeWhile (· = slash) = [] := by
    cases t
    case nil => rfl
    case cons c t =>
      refine List.takeWhile_cons_of_neg fun hc => hp ?_
      rw [of_decide_eq_true hc]
      exact ⟨t, rfl⟩
  rw [initialSlashes, List.takeWhile_cons_of_pos (p := (· = slash)) (decide_eq_true rfl), ht]

theorem initialSlashes_of_not_isAbs (h : ¬s.isAbs) : s.initialSlashes = 0 := by
  cases s
  case nil => rfl
  case cons c s =>
    have hc : c ≠ slash := fun he => h (isAbs_iff.mpr ⟨s, he ▸ rfl⟩)
    rw [initialSlashes, List.takeWhile_cons_of_neg (by simpa using hc)]

theorem prefix_of_initialSlashes (h : s.initialSlashes = 2) : [slash, slash] <+: s := by
  unfold initialSlashes at h
  split at h
  case h_1 | h_3 => cases h
  case h_2 c d ht =>
    have hall (e : CodePoint) (he : e ∈ [c, d]) : e = slash :=
      of_decide_eq_true (List.mem_takeWhile_imp (p := (· = slash)) (ht ▸ he))
    have hs := List.takeWhile_prefix (p := (· = slash)) (l := s)
    rwa [ht, hall c (by simp), hall d (by simp)] at hs

theorem initialSlashes_of_isAbs (h : s.isAbs) : s.initialSlashes = 1 ∨ s.initialSlashes = 2 := by
  obtain ⟨t, rfl⟩ := isAbs_iff.mp h
  rw [initialSlashes, List.takeWhile_cons_of_pos (p := (· = slash)) (decide_eq_true rfl)]
  rcases t.takeWhile (· = slash) with _ | ⟨_, _ | ⟨_, _⟩⟩
  · exact .inl rfl
  · exact .inr rfl
  · exact .inl rfl

-- The names that are left of an absolute path
def normNames (s : Str) : List Str :=
  s.components.foldl (pushName true) []

theorem normpath_of_one (h : s.initialSlashes = 1) : normpath s = slash :: joinNames s.normNames := by
  rw [normpath, h]
  exact if_neg (List.cons_ne_nil _ _)

theorem normpath_of_two (h : s.initialSlashes = 2) : normpath s = slash :: slash :: joinNames s.normNames := by
  rw [normpath, h]
  exact if_neg (List.cons_ne_nil _ _)

theorem isAbs_normpath (h : s.isAbs) : (normpath s).isAbs := by
  rcases initialSlashes_of_isAbs h with hi | hi
  · rw [normpath_of_one hi]
    rfl
  · rw [normpath_of_two hi]
    rfl

theorem names_normpath (h : s.isAbs) : names (normpath s) = s.normNames := by
  have hn : names (slash :: joinNames s.normNames) = s.normNames :=
    names_slash_joinNames (of_mem_pushNames (fun n => slash_notMem_of_mem_components) (List.forall_mem_nil _))
  rcases initialSlashes_of_isAbs h with hi | hi
  · rw [normpath_of_one hi, hn]
  · rw [normpath_of_two hi, names, components_cons_slash, List.filter_cons_of_neg (by simp)]
    exact hn

theorem isCanonical_normpath (h : s.isAbs) : IsCanonical (normpath s) ↔ s.initialSlashes ≠ 2 := by
  rw [IsCanonical, names_normpath h]
  rcases initialSlashes_of_isAbs h with hi | hi
  · rw [normpath_of_one hi, hi]
    exact iff_of_true rfl (by decide)
  · rw [normpath_of_two hi, hi]
    exact iff_of_false (fun he => absurd (congrArg List.length he) (by simp)) (not_not.mpr rfl)

-- A proper name is kept.
theorem normNames_joinPath (hne : n ≠ []) (hcur : n ≠ curdir) (hpar : n ≠ pardir) (hn : slash ∉ n) :
    normNames (s.joinPath n) = normNames s ++ [n] := by
  have hpush (acc : List Str) : pushName true acc n = acc ++ [n] := by
    rw [pushName, if_neg (not_or.mpr ⟨hne, hcur⟩), if_pos (.inl hpar)]
  obtain ⟨cs, he, hc⟩ := components_joinPath s hn
  rw [normNames, normNames, he, List.foldl_concat, hpush]
  rcases hc with ⟨hc, -⟩ | hc
  · rw [hc]
  · rw [hc, List.foldl_concat, pushName, if_pos (.inl rfl)]

theorem commonNames_eq_right {ms ns : List Str} : commonNames ms ns = ns ↔ ns <+: ms := by
  induction ms generalizing ns
  case nil => cases ns <;> simp [commonNames]
  case cons m ms hi =>
    cases ns
    case nil => simp [commonNames]
    case cons n ns =>
      rw [commonNames, List.cons_prefix_cons, eq_comm (a := n)]
      split
      case isTrue hm => rw [hm, List.cons_inj_right, hi, and_iff_right rfl]
      case isFalse hm => exact iff_of_false (List.cons_ne_nil _ _).symm fun h => hm h.left

theorem mem_right_of_mem_commonNames {ms ns : List Str} (h : n ∈ commonNames ms ns) : n ∈ ns := by
  fun_induction commonNames ms ns
  case case1 m ms ns hi =>
    rcases List.mem_cons.mp h with rfl | h
    · exact List.mem_cons_self
    · exact List.mem_cons_of_mem _ (hi h)
  case case2 | case3 => cases h

theorem IsCanonical.isAbs (h : s.IsCanonical) : s.isAbs := by
  rw [h]
  rfl

-- Two absolute paths have the second one in common if and only if it is canonical and the first one leads through
-- it.
theorem commonpath_eq_right (hs : s.isAbs) (ht : t.isAbs) :
    commonpath s t = some t ↔ t.IsCanonical ∧ t.names <+: s.names := by
  have hc : names (slash :: joinNames (commonNames s.names t.names)) = commonNames s.names t.names :=
    names_slash_joinNames fun n hn => of_mem_names (mem_right_of_mem_commonNames hn)
  rw [commonpath, if_pos (hs.trans ht.symm), if_pos hs, Option.some.injEq, List.singleton_append,
    ← commonNames_eq_right]
  constructor
  · intro h
    rw [h] at hc
    refine ⟨?_, hc.symm⟩
    rw [IsCanonical, hc, h]
  · rintro ⟨ht, h⟩
    rw [h]
    exact ht.symm

end Str
