import Mathlib.Logic.Function.Basic
import Peerc.Lib.Bytes

-- A file system as a program sees it: the names of a directory, the files behind them, and handles
-- on files that outlive their names. A handle is the number of its inode, and writes at the end of
-- the file.

inductive Node
  | file (inode : Nat)
  | directory
  deriving DecidableEq

def Node.inode? : Node → Option Nat
  | file i    => some i
  | directory => none

structure FileSystem (ν : Type) where
  entry   : ν → Option Node
  content : Nat → Bytes
  -- The inodes from here on have not been used.
  fresh   : Nat
  names   : List ν
  inode_lt  : ∀ {n i}, entry n = some (.file i) → i < fresh
  -- No file has two names.
  inode_inj : ∀ {m n i}, entry m = some (.file i) → entry n = some (.file i) → m = n
  mem_names : ∀ {n}, entry n ≠ none → n ∈ names

namespace FileSystem

variable {ν : Type} (fs : FileSystem ν)

def empty : FileSystem ν where
  entry _   := none
  content _ := []
  fresh     := 0
  names     := []
  inode_lt  := nofun
  inode_inj := nofun
  mem_names h := (h rfl).elim

-- `os.path.exists(n)`
def pathExists (n : ν) : Bool :=
  (fs.entry n).isSome

def inode? (n : ν) : Option Nat :=
  fs.entry n >>= Node.inode?

-- `os.path.isfile(n)`
def isFile (n : ν) : Bool :=
  (fs.inode? n).isSome

-- The content of the file under a name
def read? (n : ν) : Option Bytes :=
  (fs.inode? n).map fs.content

-- A write through a handle
def append (i : Nat) (data : Bytes) : FileSystem ν :=
  { fs with content := Function.update fs.content i (fs.content i ++ data) }

def truncate (i : Nat) : FileSystem ν :=
  { fs with content := Function.update fs.content i [] }

variable {fs}

theorem inode?_eq_some {n : ν} {i : Nat} : fs.inode? n = some i ↔ fs.entry n = some (.file i) := by
  unfold inode?
  rcases fs.entry n with _ | (_ | _) <;> simp [Node.inode?]

theorem inode?_lt {n : ν} {i : Nat} (h : fs.inode? n = some i) : i < fs.fresh :=
  fs.inode_lt (inode?_eq_some.mp h)

theorem inode?_inj {m n : ν} {i : Nat} (hm : fs.inode? m = some i) (hn : fs.inode? n = some i) :
    m = n :=
  fs.inode_inj (inode?_eq_some.mp hm) (inode?_eq_some.mp hn)

theorem read?_of_inode? {n : ν} {i : Nat} (h : fs.inode? n = some i) :
    fs.read? n = some (fs.content i) := by
  rw [read?, h]
  rfl

theorem read?_eq_none {n : ν} : fs.read? n = none ↔ fs.inode? n = none :=
  Option.map_eq_none_iff

theorem isFile_iff {n : ν} : fs.isFile n ↔ ∃ i, fs.inode? n = some i :=
  Option.isSome_iff_exists

@[simp]
theorem inode?_append {n : ν} {i : Nat} {data : Bytes} :
    (fs.append i data).inode? n = fs.inode? n := rfl

@[simp]
theorem content_append {i : Nat} {data : Bytes} : (fs.append i data).content i = fs.content i ++ data :=
  Function.update_self ..

theorem append_nil (i : Nat) : fs.append i [] = fs := by
  simp only [append, List.append_nil, Function.update_eq_self]

theorem append_append (i : Nat) (a b : Bytes) : (fs.append i a).append i b = fs.append i (a ++ b) := by
  simp only [append, Function.update_self, Function.update_idem, List.append_assoc]

theorem read?_append {n : ν} {i : Nat} {data : Bytes} (h : fs.inode? n = some i) :
    (fs.append i data).read? n = some (fs.content i ++ data) := by
  rw [read?, inode?_append, h]
  simp [append]

-- The same file with the same content has the name.
@[mk_iff]
structure Same (n : ν) (fs fs' : FileSystem ν) : Prop where
  entry : fs'.entry n = fs.entry n
  read  : fs'.read? n = fs.read? n

namespace Same

variable {n : ν} {fs fs₁ fs₂ : FileSystem ν}

theorem refl : Same n fs fs :=
  ⟨rfl, rfl⟩

theorem symm (h : Same n fs fs₁) : Same n fs₁ fs :=
  ⟨h.entry.symm, h.read.symm⟩

theorem trans (h₁ : Same n fs fs₁) (h₂ : Same n fs₁ fs₂) : Same n fs fs₂ :=
  ⟨h₂.entry.trans h₁.entry, h₂.read.trans h₁.read⟩

-- It suffices that the file behind the name, if there is one, keeps its content.
theorem of_content (he : fs₁.entry n = fs.entry n)
    (hc : ∀ i, fs.inode? n = some i → fs₁.content i = fs.content i) : Same n fs fs₁ where
  entry := he
  read  := by
    have hi : fs₁.inode? n = fs.inode? n := by rw [inode?, he, inode?]
    rw [read?, hi, read?]
    cases h : fs.inode? n
    case none => rfl
    case some i => exact congrArg some (hc i h)

theorem inode? (h : Same n fs fs₁) : fs₁.inode? n = fs.inode? n := by
  rw [FileSystem.inode?, h.entry, FileSystem.inode?]

theorem content {i : Nat} (h : Same n fs fs₁) (hi : fs.inode? n = some i) :
    fs₁.content i = fs.content i := by
  have hr := h.read
  rw [read?_of_inode? hi, read?_of_inode? (h.inode?.trans hi)] at hr
  exact Option.some.inj hr

end Same

theorem same_append {n : ν} {i : Nat} {data : Bytes} (h : fs.inode? n ≠ some i) :
    Same n fs (fs.append i data) :=
  .of_content rfl fun j hj => Function.update_of_ne (show j ≠ i from fun he => h (he ▸ hj)) _ _

theorem same_truncate {n : ν} {i : Nat} (h : fs.inode? n ≠ some i) : Same n fs (fs.truncate i) :=
  .of_content rfl fun j hj => Function.update_of_ne (show j ≠ i from fun he => h (he ▸ hj)) _ _

variable [DecidableEq ν] (fs)

def link (n : ν) (node : Option Node) (hf : ∀ i, node = some (.file i) → i < fs.fresh)
    (hu : ∀ m i, node = some (.file i) → fs.entry m = some (.file i) → m = n) : FileSystem ν where
  entry   := Function.update fs.entry n node
  content := fs.content
  fresh   := fs.fresh
  names   := n :: fs.names
  inode_lt {m i} h := by
    by_cases hm : m = n
    case pos => exact hf i (by simpa [hm] using h)
    case neg => exact fs.inode_lt (by simpa [hm] using h)
  inode_inj {m₁ m₂ i} h₁ h₂ := by
    by_cases hm₁ : m₁ = n <;> by_cases hm₂ : m₂ = n
    · rw [hm₁, hm₂]
    · rw [hm₁, hu m₂ i (by simpa [hm₁] using h₁) (by simpa [hm₂] using h₂)]
    · rw [hm₂, hu m₁ i (by simpa [hm₂] using h₂) (by simpa [hm₁] using h₁)]
    · exact fs.inode_inj (by simpa [hm₁] using h₁) (by simpa [hm₂] using h₂)
  mem_names {m} h := by
    by_cases hm : m = n
    case pos => exact hm ▸ List.mem_cons_self
    case neg => exact List.mem_cons_of_mem _ (fs.mem_names (by simpa [hm] using h))

def unlink (n : ν) : FileSystem ν :=
  fs.link n none nofun nofun

-- The file system with a new inode for an empty file
def allocate : FileSystem ν :=
  { fs with
    content := Function.update fs.content fs.fresh []
    fresh   := fs.fresh + 1
    inode_lt := fun h => Nat.lt_succ_of_lt (fs.inode_lt h) }

-- A new empty file
def create (n : ν) : FileSystem ν :=
  fs.allocate.link n (some (.file fs.fresh))
    (fun i h => by cases h; exact Nat.lt_succ_self _)
    (fun m i h hm => by cases h; exact (fs.inode_lt hm).false.elim)

-- The name `dst` for the file that had the name `src`
def rename (src dst : ν) (i : Nat) (h : fs.entry src = some (.file i)) : FileSystem ν :=
  (fs.unlink src).link dst (some (.file i))
    (fun j hj => by cases hj; exact fs.inode_lt h)
    (fun m j hj hm => by
      -- After the unlinking no name has the file.
      cases hj
      by_cases hs : m = src
      case pos => simp [unlink, link, hs] at hm
      case neg => exact (hs (fs.inode_inj (by simpa [unlink, link, hs] using hm) h)).elim)

-- `open(n, "wb")`: a directory makes it raise.
def openWrite (n : ν) : Option (Nat × FileSystem ν) :=
  match fs.entry n with
  | none            => some (fs.fresh, fs.create n)
  | some (.file i)  => some (i, fs.truncate i)
  | some .directory => none

-- `open(n, "ab")`
def openAppend (n : ν) : Option (Nat × FileSystem ν) :=
  match fs.entry n with
  | none            => some (fs.fresh, fs.create n)
  | some (.file i)  => some (i, fs)
  | some .directory => none

-- `os.remove(n)`, where it raises nothing changes.
def remove (n : ν) : FileSystem ν :=
  if fs.isFile n then fs.unlink n else fs

-- `os.replace(src, dst)` for a file: a directory under the new name makes it raise.
def replace (src dst : ν) : Option (FileSystem ν) :=
  match h : fs.entry src with
  | some (.file i) => if fs.entry dst = some .directory then none else some (fs.rename src dst i h)
  | _              => none

variable {fs}

theorem inode?_create {n : ν} : (fs.create n).inode? n = some fs.fresh := by
  simp [inode?, create, link, Node.inode?]

theorem same_create {m n : ν} (h : m ≠ n) : Same m fs (fs.create n) :=
  .of_content (Function.update_of_ne h _ _) fun _ hi =>
    Function.update_of_ne (inode?_lt hi).ne _ _

theorem entry_remove {n : ν} :
    (fs.remove n).entry n = if fs.isFile n then none else fs.entry n := by
  unfold remove
  split
  case isTrue => exact Function.update_self ..
  case isFalse => rfl

theorem inode?_remove {n : ν} : (fs.remove n).inode? n = none := by
  unfold remove
  split
  case isTrue => simp [inode?, unlink, link]
  case isFalse h => simpa [isFile] using h

@[simp]
theorem fresh_remove {n : ν} : (fs.remove n).fresh = fs.fresh := by
  unfold remove
  split <;> rfl

-- A file that is written to stays the same one when a name is taken away or given to a new file.

theorem remove_append {n : ν} {i : Nat} {data : Bytes} :
    (fs.append i data).remove n = (fs.remove n).append i data := by
  unfold remove
  split
  case isTrue h => rw [if_pos (show fs.isFile n from h)]; rfl
  case isFalse h => rw [if_neg (show ¬fs.isFile n from h)]

theorem create_append {n : ν} {i : Nat} {data : Bytes} (h : i ≠ fs.fresh) :
    (fs.append i data).create n = (fs.create n).append i data := by
  simp only [create, link, allocate, append, mk.injEq, true_and, and_true]
  rw [Function.update_comm h, Function.update_of_ne h]

theorem read?_remove {n : ν} : (fs.remove n).read? n = none := by
  rw [read?, inode?_remove]
  rfl

theorem same_remove {m n : ν} (h : m ≠ n) : Same m fs (fs.remove n) := by
  unfold remove
  split
  case isTrue => exact .of_content (Function.update_of_ne h _ _) fun _ _ => rfl
  case isFalse => exact .refl

theorem openWrite_eq_none {n : ν} : fs.openWrite n = none ↔ fs.entry n = some .directory := by
  unfold openWrite
  split <;> simp_all

-- What is no directory can be removed and opened again.
theorem openWrite_remove_eq_none {n : ν} :
    (fs.remove n).openWrite n = none ↔ fs.entry n = some .directory := by
  rw [openWrite_eq_none, entry_remove]
  split
  case isFalse => rfl
  case isTrue h =>
    have ⟨i, hi⟩ := Option.isSome_iff_exists.mp h
    rw [inode?_eq_some.mp hi]
    simp

-- Opening for writing gives a handle on an empty file with that name. Other files stay.
theorem openWrite_eq_some {n : ν} {i : Nat} {fs' : FileSystem ν} (h : fs.openWrite n = some (i, fs')) :
    fs'.inode? n = some i ∧ fs'.content i = [] ∧ ∀ m ≠ n, Same m fs fs' := by
  unfold openWrite at h
  split at h
  case h_1 =>
    cases h
    exact ⟨inode?_create, by simp [create, link, allocate], fun m hm => same_create hm⟩
  case h_2 j hj =>
    cases h
    have hj := inode?_eq_some.mpr hj
    exact ⟨hj, by simp [truncate], fun m hm => same_truncate fun h => hm (inode?_inj h hj)⟩
  case h_3 => cases h

theorem openWrite_of_none {n : ν} (h : fs.entry n = none) :
    fs.openWrite n = some (fs.fresh, fs.create n) := by
  rw [openWrite, h]

theorem openWrite_remove {n : ν} (h : fs.entry n ≠ some .directory) :
    (fs.remove n).openWrite n = some (fs.fresh, (fs.remove n).create n) := by
  have hn : (fs.remove n).entry n = none := by
    rw [entry_remove]
    split
    case isTrue => rfl
    case isFalse hf =>
      rcases he : fs.entry n with _ | _ | _
      · rfl
      · simp [isFile, inode?, he, Node.inode?] at hf
      · exact absurd he h
  rw [openWrite_of_none hn, fresh_remove]

theorem fresh_le_openWrite {n : ν} {i : Nat} {fs' : FileSystem ν} (h : fs.openWrite n = some (i, fs')) :
    fs.fresh ≤ fs'.fresh := by
  unfold openWrite at h
  split at h <;> cases h
  · exact Nat.le_succ _
  · exact Nat.le_refl _

theorem remove_of_none {n : ν} (h : fs.entry n = none) : fs.remove n = fs := by
  simp [remove, isFile, inode?, h]

-- Opening an existing file for appending changes nothing.
theorem openAppend_of_inode? {n : ν} {i : Nat} (h : fs.inode? n = some i) :
    fs.openAppend n = some (i, fs) := by
  rw [openAppend, inode?_eq_some.mp h]

theorem replace_eq_some {src dst : ν} {fs' : FileSystem ν} (hd : src ≠ dst)
    (h : fs.replace src dst = some fs') :
    fs'.content = fs.content ∧ fs'.entry dst = fs.entry src ∧ fs'.entry src = none ∧
      ∀ m, m ≠ src → m ≠ dst → Same m fs fs' := by
  unfold replace at h
  split at h
  case h_2 => cases h
  case h_1 i hi =>
    split at h
    case isTrue => cases h
    case isFalse =>
      cases h
      refine ⟨rfl, ?_, ?_, fun m hs hd => .of_content ?_ fun _ _ => rfl⟩
      · simp [rename, link, hi]
      · simp [rename, unlink, link, hd]
      · simp [rename, unlink, link, hs, hd]

theorem fresh_replace {src dst : ν} {fs' : FileSystem ν} (h : fs.replace src dst = some fs') :
    fs'.fresh = fs.fresh := by
  unfold replace at h
  split at h
  case h_2 => cases h
  case h_1 =>
    split at h <;> cases h
    rfl

theorem isFile_of_replace {src dst : ν} {fs' : FileSystem ν} (h : fs.replace src dst = some fs') :
    fs.isFile src ∧ fs.entry dst ≠ some .directory := by
  unfold replace at h
  split at h
  case h_2 => cases h
  case h_1 i hi =>
    split at h
    case isTrue => cases h
    case isFalse hd => exact ⟨isFile_iff.mpr ⟨i, inode?_eq_some.mpr hi⟩, hd⟩

theorem replace_of_isFile {src dst : ν} (hs : fs.isFile src) (hd : fs.entry dst ≠ some .directory) :
    ∃ fs', fs.replace src dst = some fs' := by
  obtain ⟨i, hi⟩ := isFile_iff.mp hs
  unfold replace
  split
  case h_1 => exact ⟨_, if_neg hd⟩
  case h_2 hn => exact (hn i (inode?_eq_some.mp hi)).elim

theorem read?_replace {src dst : ν} {fs' : FileSystem ν} (hd : src ≠ dst)
    (h : fs.replace src dst = some fs') : fs'.read? dst = fs.read? src := by
  obtain ⟨hc, hi, -, -⟩ := replace_eq_some hd h
  rw [read?, inode?, hi, hc, read?, inode?]

end FileSystem
