import Peerc.Lib.FirstFree
import Peerc.Lib.Json.Tokens
import Peerc.Lib.Path
import Peerc.Transfer.Receiver

-- core/transfer/receiver.py

namespace Transfer

-- `f"{base} ({counter}){ext}"`, after the name itself
def candidateName (name : Str) : (counter : Nat) → Str
  | 0           => name
  | counter + 1 =>
    let (base, ext) := name.splitext
    base ++ Str.ofString " (" ++ decimal (counter + 1) ++ Str.ofString ")" ++ ext

def isTaken (fs : FileSystem Str) (path : Str) : Bool :=
  fs.pathExists path || fs.pathExists (getPartPath path)

-- The loop of `resolve_safe_dest_path`
def searchCandidate (fs : FileSystem Str) (path : Nat → Str) (fuel counter : Nat) : Option Str :=
  firstFree (isTaken fs) path fuel counter

-- The name of a file in the directory, or none if it is not safe
def safeName? (filename : Str) : Option Str :=
  let name := (filename.replaceChar 0x5C Str.slash).basename.strip
  if name = [] ∨ name = Str.ofString "." ∨ name = Str.ofString ".." then none else some name

-- Without symbolic links the path that is found lies in the directory. What makes it raise is an unsafe name,
-- or one that is no text of a path, which `os.path.realpath` refuses. A name is in the way of two candidates at
-- most.
def resolveSafeDestPath (fs : FileSystem Str) (downloadsDir filename : Str) : Option Str := do
  let name ← safeName? filename
  if ¬name.IsPathText then none
  searchCandidate fs (fun counter => downloadsDir.joinPath (candidateName name counter))
    (2 * fs.names.length + 1) 0

theorem candidateName_injective (name : Str) : Function.Injective (candidateName name) := by
  have hn := congrArg List.length (Str.splitext_append name)
  rw [List.length_append] at hn
  have hl (n : Nat) : name.length < (candidateName name (n + 1)).length := by
    simp only [candidateName, List.length_append, ← hn]
    have h₁ : (Str.ofString " (").length = 2 := rfl
    omega
  intro m n h
  match m, n with
  | 0,     0     => rfl
  | 0,     n + 1 => exact ((hl n).ne (congrArg List.length h)).elim
  | m + 1, 0     => exact ((hl m).ne (congrArg List.length h).symm).elim
  | m + 1, n + 1 =>
    simp only [candidateName, List.append_assoc, List.append_cancel_left_eq] at h
    have hd : decimal (m + 1) = decimal (n + 1) := by
      simp only [← List.append_assoc] at h
      exact List.append_cancel_right (List.append_cancel_right h)
    have ho := congrArg ofDecimal hd
    rwa [ofDecimal_decimal, ofDecimal_decimal] at ho

theorem isTaken_eq_false {fs : FileSystem Str} {path : Str} (h : isTaken fs path = false) :
    fs.entry path = none ∧ fs.entry (getPartPath path) = none := by
  simpa [isTaken, FileSystem.pathExists] using h

theorem getPartPath_injective : Function.Injective getPartPath :=
  fun _ _ h => List.append_cancel_right h

theorem resolveSafeDestPath_free {fs : FileSystem Str} {downloadsDir filename p : Str}
    (h : resolveSafeDestPath fs downloadsDir filename = some p) :
    fs.entry p = none ∧ fs.entry (getPartPath p) = none := by
  obtain ⟨name, -, h⟩ := Option.bind_eq_some_iff.mp h
  split at h
  case isTrue => cases h
  case isFalse => exact isTaken_eq_false (firstFree.eq_some h).left

theorem searchCandidate_isSome (fs : FileSystem Str) {path : Nat → Str} (hp : Function.Injective path) :
    (searchCandidate fs path (2 * fs.names.length + 1) 0).isSome := by
  refine firstFree.isSome hp getPartPath_injective fun p ht => ?_
  simp only [isTaken, FileSystem.pathExists, Bool.or_eq_true, ← Option.ne_none_iff_isSome] at ht
  exact ht.imp fs.mem_names fs.mem_names

-- A name that is safe and the text of a path
def IsAcceptable (filename : Str) : Prop :=
  ∃ name, safeName? filename = some name ∧ name.IsPathText

-- Only such a name is not refused.
theorem resolveSafeDestPath_eq_none {fs : FileSystem Str} {downloadsDir filename : Str} :
    resolveSafeDestPath fs downloadsDir filename = none ↔ ¬IsAcceptable filename := by
  unfold resolveSafeDestPath IsAcceptable
  cases hs : safeName? filename
  case none => simp
  case some name =>
    have hp := (Str.joinPath_injective downloadsDir).comp (candidateName_injective name)
    have hsome := searchCandidate_isSome fs hp
    by_cases ht : name.IsPathText
    case neg => simp [ht]
    case pos => simpa [ht, Option.isSome_iff_ne_none, Function.comp_def] using hsome

end Transfer
