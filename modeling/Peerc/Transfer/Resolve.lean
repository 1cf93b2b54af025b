import Peerc.Lib.Realpath
import Peerc.Transfer.DestPath

-- core/transfer/receiver.py

namespace Transfer

inductive ResolveError
  | transferSecurity (msg : Message)
  | path (e : PathError)
  -- The search has not come to an end.
  | endless

def ResolveError.ofPath {α : Type} (x : Except PathError α) : Except ResolveError α :=
  x.mapError .path

-- The end of `resolve_safe_dest_path`: a link may lead the candidate out of the directory.
def checkCandidate (h : Host) (downloadsRoot candidate : Str) : Except ResolveError Str := do
  let resolved ← ResolveError.ofPath (h.realpath candidate)
  match Str.commonpath resolved downloadsRoot with
  | none        => throw <| .path .valueError
  | some common =>
    if common ≠ downloadsRoot then
      throw <| .transferSecurity [.text "Resolved path escapes downloads directory: ", .repr resolved]
    return candidate

-- `resolve_safe_dest_path`, on a system with symbolic links
def resolveOnHost (h : Host) (downloadsDir filename : Str) : Except ResolveError Str := do
  match safeName? filename with
  | none      => throw <| .transferSecurity [.text "Unsafe filename: ", .repr filename]
  | some name =>
    let downloadsRoot ← ResolveError.ofPath (h.realpath downloadsDir)
    let taken path := h.pathExists path || h.pathExists (getPartPath path)
    match firstFree taken (fun counter => downloadsDir.joinPath (candidateName name counter))
        (2 * h.known.length + 1) 0 with
    | none           => throw .endless
    | some candidate => checkCandidate h downloadsRoot candidate

-- The files alone, without symbolic links
def hostOf (fs : FileSystem Str) : Host where
  stat p := fs.pathExists p
  link? _ := none
  cwd := [Str.slash]
  known := fs.names
  stat_known h := fs.mem_names (Option.ne_none_iff_isSome.mpr h)
  link_known := nofun
  link_text := nofun
  cwd_abs := rfl
  cwd_plain := by decide

end Transfer
