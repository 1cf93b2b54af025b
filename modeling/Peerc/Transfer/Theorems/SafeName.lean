import Peerc.Transfer.Resolve

-- Where an incoming file is put

namespace Transfer

open Str (slash curdir pardir)

variable {filename name dir : Str} {h : Host} {i : Nat}

-- `os.path.basename(filename.replace("\\", "/")).strip()`
def strippedName (filename : Str) : Str :=
  (filename.replaceChar 0x5C slash).basename.strip

def IsUnsafe (name : Str) : Prop :=
  name = [] ∨ name = curdir ∨ name = pardir

instance decidableIsUnsafe : DecidablePred IsUnsafe :=
  fun _ => inferInstanceAs (Decidable (_ ∨ _ ∨ _))

theorem safeName?_eq : safeName? filename =
    if IsUnsafe (strippedName filename) then none else some (strippedName filename) := rfl

-- A single component of a path
structure IsComponent (n : Str) : Prop where
  safe      : ¬IsUnsafe n
  slash     : slash ∉ n
  backslash : 0x5C ∉ n

theorem isComponent_strippedName (h : ¬IsUnsafe (strippedName filename)) : IsComponent (strippedName filename) where
  safe      := h
  slash hc  := (Str.of_mem_basename (Str.mem_of_mem_strip hc)).right rfl
  backslash := by
    intro hc
    obtain ⟨d, -, hd⟩ := List.mem_map.mp (Str.of_mem_basename (Str.mem_of_mem_strip hc)).left
    split at hd
    case isTrue => exact absurd hd (by decide)
    case isFalse hne => exact hne hd

-- What holds for the characters of a name holds for those of its candidates, if it holds for the ones that are
-- added.
theorem forall_mem_candidateName {q : CodePoint → Prop} (hq : ∀ c ∈ Str.ofString " ()", q c)
    (hd : ∀ c, isDigit c → q c) : (∀ c ∈ candidateName name i, q c) ↔ ∀ c ∈ name, q c := by
  cases i
  case zero => rfl
  case succ i =>
    have hdec : ∀ c ∈ decimal (i + 1), q c := fun c hc => hd c (isDigit_of_mem_decimal hc)
    have hopen : ∀ c ∈ Str.ofString " (", q c := fun c hc => hq c (List.mem_append_left [0x29] hc)
    have hclose : ∀ c ∈ Str.ofString ")", q c := fun c hc => hq c (List.mem_append_right [0x20, 0x28] hc)
    conv_rhs => rw [← Str.splitext_append name]
    simp only [candidateName, List.forall_mem_append]
    exact ⟨fun h => ⟨h.left.left.left.left, h.right⟩,
      fun h => ⟨⟨⟨⟨h.left, hopen⟩, hdec⟩, hclose⟩, h.right⟩⟩

theorem isPathText_candidateName : (candidateName name i).IsPathText ↔ name.IsPathText := by
  have hq : (Str.ofString " ()").IsPathText := by decide
  refine forall_mem_candidateName hq fun c hc => ⟨Json.ne_of_isDigit hc (by decide), fun hs => ?_⟩
  simp only [isDigit, Bool.and_eq_true, decide_eq_true_eq] at hc
  have := hs.left
  omega

theorem notMem_candidateName {d : CodePoint} (hq : d ∉ Str.ofString " ()") (hd : ¬isDigit d) (h : d ∉ name) :
    d ∉ candidateName name i := by
  have hf := (forall_mem_candidateName (i := i) (q := (· ≠ d)) (fun c hc he => hq (he ▸ hc))
    fun c hc => Json.ne_of_isDigit hc hd).mpr fun c hc he => h (he ▸ hc)
  exact fun hc => hf d hc rfl

theorem IsComponent.candidateName (h : IsComponent name) (i : Nat) : IsComponent (candidateName name i) where
  safe      := by
    cases i
    case zero => exact h.safe
    case succ i =>
      have hl : 2 < (Transfer.candidateName name (i + 1)).length := by
        have h₁ : (Str.ofString " (").length = 2 := rfl
        have h₂ : (Str.ofString ")").length = 1 := rfl
        simp only [Transfer.candidateName, List.length_append]
        omega
      rintro (he | he | he) <;> rw [he] at hl <;> exact absurd hl (by decide)
  slash     := notMem_candidateName (by decide) (by decide) h.slash
  backslash := notMem_candidateName (by decide) (by decide) h.backslash

-- The real path of `path` lies in that of `dir`.
def LiesIn (h : Host) (path dir : Str) : Prop :=
  ∃ p root, h.realpath path = .ok p ∧ h.realpath dir = .ok root ∧ root.names <+: p.names

def Escapes (h : Host) (path dir : Str) : Prop :=
  ∃ p root, h.realpath path = .ok p ∧ h.realpath dir = .ok root ∧ ¬root.names <+: p.names

def IsFree (h : Host) (path : Str) : Prop :=
  ¬h.pathExists path ∧ ¬h.pathExists (getPartPath path)

-- The paths that are tried, the first of which that is free is taken
def candidate (dir filename : Str) (i : Nat) : Str :=
  dir.joinPath (candidateName (strippedName filename) i)

structure IsTaken (h : Host) (dir filename : Str) (i : Nat) : Prop where
  free  : IsFree h (candidate dir filename i)
  first : ∀ j < i, ¬IsFree h (candidate dir filename j)

-- The outcomes that a caller may rely on
def IsSafe (h : Host) (dir filename : Str) : Except ResolveError Str → Prop
  | .ok path                     =>
    ∃ n, path = dir.joinPath n ∧ IsComponent n ∧ LiesIn h path dir ∧ IsFree h path
  | .error (.transferSecurity _) =>
    IsUnsafe (strippedName filename) ∨
    ∃ i, IsTaken h dir filename i ∧ Escapes h (candidate dir filename i) dir
  | .error _                     => False

theorem known_of_pathExists {path : Str} (hp : h.pathExists path) : path ∈ h.known :=
  h.stat_known (of_decide_eq_true hp).right

theorem isFree_iff {path : Str} :
    IsFree h path ↔ (h.pathExists path || h.pathExists (getPartPath path)) = false := by
  rw [IsFree, Bool.or_eq_false_iff, Bool.not_eq_true, Bool.not_eq_true]

-- The search for a candidate comes to an end.
theorem resolveOnHost_eq {root : Str} (hu : ¬IsUnsafe (strippedName filename)) (hr : h.realpath dir = .ok root) :
    ∃ i, IsTaken h dir filename i ∧
      resolveOnHost h dir filename = checkCandidate h root (candidate dir filename i) := by
  have ht (path : Str) (hp : h.pathExists path || h.pathExists (getPartPath path)) :
      path ∈ h.known ∨ getPartPath path ∈ h.known :=
    ((Bool.or_eq_true _ _).mp hp).imp known_of_pathExists known_of_pathExists
  have hinj : Function.Injective fun counter => dir.joinPath (candidateName (strippedName filename) counter) :=
    (Str.joinPath_injective dir).comp (candidateName_injective (strippedName filename))
  obtain ⟨p, hc⟩ := Option.isSome_iff_exists.mp (firstFree.isSome hinj getPartPath_injective ht)
  obtain ⟨hf, i, rfl, hfirst⟩ := firstFree.eq_some hc
  refine ⟨i, ⟨isFree_iff.mpr hf, fun j hj hfree => ?_⟩, ?_⟩
  · exact Bool.eq_false_iff.mp (isFree_iff.mp hfree) (hfirst j (Nat.zero_le j) hj)
  · simp only [resolveOnHost, safeName?_eq, if_neg hu, hr, hc]
    rfl

theorem checkCandidate_eq {root path p : Str} (hp : h.realpath path = .ok p) (ha : p.isAbs) (hr : root.isAbs) :
    (root.IsCanonical ∧ root.names <+: p.names → checkCandidate h root path = .ok path) ∧
    (¬(root.IsCanonical ∧ root.names <+: p.names) →
      ∃ msg, checkCandidate h root path = .error (.transferSecurity msg)) := by
  obtain ⟨common, he⟩ : ∃ common, Str.commonpath p root = some common := ⟨_, if_pos (ha.trans hr.symm)⟩
  have hiff := Str.commonpath_eq_right ha hr
  rw [he, Option.some.injEq] at hiff
  have hcheck : checkCandidate h root path = if common ≠ root then
      .error (.transferSecurity [.text "Resolved path escapes downloads directory: ", .repr p]) else .ok path := by
    have hb (f : Str → Except ResolveError Str) : ResolveError.ofPath (.ok p) >>= f = f p := rfl
    rw [checkCandidate, hp, hb, he]
    rfl
  rw [hcheck, ← hiff]
  exact ⟨fun hin => if_neg (not_not.mpr hin), fun hout => ⟨_, if_pos hout⟩⟩

-- The names of the candidates of a safe name are components.
theorem isComponent_candidate (hu : ¬IsUnsafe (strippedName filename)) (i : Nat) :
    IsComponent (candidateName (strippedName filename) i) :=
  (isComponent_strippedName hu).candidateName i

theorem IsComponent.ne {n : Str} (hn : IsComponent n) : n ≠ [] ∧ n ≠ curdir ∧ n ≠ pardir :=
  ⟨fun h => hn.safe (.inl h), fun h => hn.safe (.inr (.inl h)), fun h => hn.safe (.inr (.inr h))⟩

-- `os.path.realpath` raises for a name that is no text of a path.
theorem resolveOnHost_of_not_isPathText (hu : ¬IsUnsafe (strippedName filename)) (hd : h.Resolves dir)
    (ht : ¬(strippedName filename).IsPathText) : resolveOnHost h dir filename = .error (.path .valueError) := by
  obtain ⟨root, hr, -, hname⟩ := hd.realpath
  obtain ⟨i, -, he⟩ := resolveOnHost_eq hu hr
  have hc := isComponent_candidate hu i
  obtain ⟨hne, hcur, hpar⟩ := hc.ne
  obtain ⟨-, herror⟩ := hname _ hne hcur hpar hc.slash
  rw [he, checkCandidate, candidate, herror (mt isPathText_candidateName.mp ht)]
  rfl

-- If the directory resolves, only the text of the name can stand in the way.
theorem isSafe_of_resolves (hu : ¬IsUnsafe (strippedName filename)) (hd : h.Resolves dir) :
    IsSafe h dir filename (resolveOnHost h dir filename) ↔ (strippedName filename).IsPathText := by
  by_cases ht : (strippedName filename).IsPathText
  case neg =>
    rw [resolveOnHost_of_not_isPathText hu hd ht]
    exact iff_of_false id ht
  case pos =>
    refine iff_of_true ?_ ht
    obtain ⟨root, hr, hcan, hname⟩ := hd.realpath
    obtain ⟨i, hi, he⟩ := resolveOnHost_eq hu hr
    have hc := isComponent_candidate hu i
    obtain ⟨hne, hcur, hpar⟩ := hc.ne
    obtain ⟨p, hp, ha⟩ := (hname _ hne hcur hpar hc.slash).left (isPathText_candidateName.mpr ht)
    obtain ⟨hok, hescape⟩ := checkCandidate_eq hp ha hcan.isAbs
    rw [he]
    by_cases hin : root.names <+: p.names
    case pos =>
      rw [candidate, hok ⟨hcan, hin⟩]
      exact ⟨_, rfl, hc, ⟨p, root, hp, hr, hin⟩, hi.free⟩
    case neg =>
      obtain ⟨msg, hm⟩ := hescape (mt And.right hin)
      rw [candidate, hm]
      exact .inr ⟨i, hi, p, root, hp, hr, hin⟩

theorem prefix_names_candidate (hu : ¬IsUnsafe (strippedName filename)) (q : Str) (i : Nat) :
    (h.abspath q).names <+: (h.abspath (q.joinPath (candidateName (strippedName filename) i))).names := by
  have hc := isComponent_candidate hu i
  obtain ⟨hne, hcur, hpar⟩ := hc.ne
  rw [Host.names_abspath_joinPath hne hcur hpar hc.slash]
  exact List.prefix_append _ _

-- If it leads into a loop, the candidates lie in what the loop leaves of it.
theorem isSafe_of_loop {q : Str} {seen : Host.Seen} (hu : ¬IsUnsafe (strippedName filename))
    (hd : h.joinRealpath (h.known.length + 1) [] dir [] = .ok ((q, false), seen)) :
    IsSafe h dir filename (resolveOnHost h dir filename) ↔ q.initialSlashes ≠ 2 := by
  obtain ⟨hr, hname⟩ := Host.realpath_of_loop hd
  have hin := prefix_names_candidate (h := h) hu q
  obtain ⟨i, hi, he⟩ := resolveOnHost_eq hu hr
  have hp := hname _ (isComponent_candidate hu i).slash
  obtain ⟨hok, hescape⟩ := checkCandidate_eq hp (h.isAbs_abspath _) (h.isAbs_abspath q)
  rw [he, ← Host.isCanonical_abspath (h := h)]
  by_cases hcan : (h.abspath q).IsCanonical
  case pos =>
    rw [candidate, hok ⟨hcan, hin i⟩]
    exact iff_of_true ⟨_, rfl, isComponent_candidate hu i, ⟨_, _, hp, hr, hin i⟩, hi.free⟩ hcan
  case neg =>
    obtain ⟨msg, hm⟩ := hescape (mt And.left hcan)
    rw [candidate, hm]
    refine iff_of_false ?_ hcan
    rintro (h | ⟨j, -, p, root, hp', hr', hout⟩)
    · exact hu h
    · cases hr.symm.trans hr'
      cases (hname _ (isComponent_candidate hu j).slash).symm.trans hp'
      exact hout (hin j)

-- Where there are no links, `resolveSafeDestPath` is what is found. After the check of the name it refuses only what is
-- no text of a path.

theorem isFree_hostOf {fs : FileSystem Str} {path : Str} (hp : path.IsPathText) :
    IsFree (hostOf fs) path ↔ isTaken fs path = false := by
  have hpart : (getPartPath path).IsPathText := Str.isPathText_append.mpr ⟨hp, by decide⟩
  have hexists {p : Str} (ht : p.IsPathText) : (hostOf fs).pathExists p = fs.pathExists p := by
    simp only [Host.pathExists, ht, true_and, Bool.decide_eq_true]
    rfl
  rw [isFree_iff, hexists hp, hexists hpart, isTaken]

theorem resolveOnHost_hostOf (fs : FileSystem Str) (hd : dir.IsPathText) (hu : ¬IsUnsafe (strippedName filename)) :
    resolveOnHost (hostOf fs) dir filename =
      match resolveSafeDestPath fs dir filename with
      | none      => .error (.path .valueError)
      | some path => .ok path := by
  have hl (p : Str) : (hostOf fs).link? p = none := rfl
  have hsafe : safeName? filename = some (strippedName filename) := by rw [safeName?_eq, if_neg hu]
  by_cases ht : (strippedName filename).IsPathText
  case neg =>
    have hnone : resolveSafeDestPath fs dir filename = none := by
      refine resolveSafeDestPath_eq_none.mpr ?_
      rintro ⟨name, hs, hname⟩
      cases hsafe.symm.trans hs
      exact ht hname
    rw [resolveOnHost_of_not_isPathText hu (Host.resolves_of_linkless hl hd) ht, hnone]
  case pos =>
    have htext (j : Nat) : (candidate dir filename j).IsPathText :=
      Str.isPathText_joinPath.mpr ⟨hd, isPathText_candidateName.mpr ht⟩
    have hsearch : resolveSafeDestPath fs dir filename =
        firstFree (isTaken fs) (candidate dir filename) (2 * fs.names.length + 1) 0 := by
      rw [resolveSafeDestPath, hsafe]
      exact if_neg (not_not.mpr ht)
    have hne : resolveSafeDestPath fs dir filename ≠ none :=
      fun hn => resolveSafeDestPath_eq_none.mp hn ⟨_, hsafe, ht⟩
    obtain ⟨p, hp⟩ := Option.ne_none_iff_exists'.mp hne
    obtain ⟨hfree, j, rfl, hfirst⟩ := firstFree.eq_some (hsearch.symm.trans hp)
    obtain ⟨q, hq, hr, hname⟩ := Host.realpath_of_linkless hl hd
    obtain ⟨i, hi, he⟩ := resolveOnHost_eq hu hr
    -- Both searches stop at the same candidate.
    have hij : i = j := by
      rcases Nat.lt_trichotomy i j with hlt | heq | hlt
      · exact absurd (hfirst i (Nat.zero_le i) hlt) (Bool.eq_false_iff.mp ((isFree_hostOf (htext i)).mp hi.free))
      · exact heq
      · exact absurd ((isFree_hostOf (htext j)).mpr hfree) (hi.first j hlt)
    subst hij
    have hc := isComponent_candidate hu i
    obtain ⟨hne, hcur, hpar⟩ := hc.ne
    have hp' := hname _ hne hcur hpar hc.slash (isPathText_candidateName.mpr ht)
    have hok := (checkCandidate_eq hp' ((hostOf fs).isAbs_abspath _) ((hostOf fs).isAbs_abspath q)).left
    rw [he, hp]
    exact hok ⟨hq.isCanonical_abspath, prefix_names_candidate hu q i⟩

end Transfer

open Transfer in
theorem safe_dest_path_iff (h : Host) (dir filename : Str) :
    IsSafe h dir filename (resolveOnHost h dir filename) ↔
      IsUnsafe (strippedName filename) ∨ (h.Resolves dir ∧ (strippedName filename).IsPathText) ∨ h.Loops dir := by
  by_cases hu : IsUnsafe (strippedName filename)
  case pos =>
    rw [resolveOnHost, safeName?_eq, if_pos hu]
    exact iff_of_true (.inl hu) (.inl hu)
  case neg =>
    rw [or_iff_right hu]
    rcases hd : h.joinRealpath (h.known.length + 1) [] dir [] with e | ⟨⟨q, _ | _⟩, seen⟩
    case error =>
      have hr : h.realpath dir = .error e := by
        rw [Host.realpath, hd]
        rfl
      rw [resolveOnHost, safeName?_eq, if_neg hu, hr]
      refine iff_of_false id ?_
      rintro (⟨⟨q, seen, hd'⟩, -⟩ | ⟨q, seen, hd', -⟩) <;> cases hd.symm.trans hd'
    case ok.false =>
      have hres : ¬h.Resolves dir := by
        rintro ⟨q', seen', hd'⟩
        cases hd.symm.trans hd'
      have hloop : h.Loops dir ↔ q.initialSlashes ≠ 2 := by
        constructor
        · rintro ⟨q', seen', hd', hs⟩
          cases hd.symm.trans hd'
          exact hs
        · exact fun hs => ⟨q, seen, hd, hs⟩
      rw [isSafe_of_loop hu hd, hloop, or_iff_right (mt And.left hres)]
    case ok.true =>
      have hres : h.Resolves dir := ⟨q, seen, hd⟩
      have hloop : ¬h.Loops dir := by
        rintro ⟨q', seen', hd', -⟩
        cases hd.symm.trans hd'
      rw [isSafe_of_resolves hu hres, and_iff_right hres, or_iff_left hloop]

-- The name is a single surrogate, which no path can have.
open Transfer in
theorem safe_dest_path_raises : ∃ h dir filename, h.Resolves dir ∧ 0 ∉ filename ∧
    ¬IsUnsafe (strippedName filename) ∧ resolveOnHost h dir filename = .error (.path .valueError) := by
  have hd : (Str.ofString "downloads").IsPathText := by decide
  refine ⟨hostOf .empty, .ofString "downloads", [0xD800], Host.resolves_of_linkless (fun p => rfl) hd, ?_, ?_, ?_⟩
  · decide
  · decide
  · rfl
