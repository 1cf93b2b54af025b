import Peerc.Lib.FileSystem

-- A file object that is open for writing at the end of its file. What is written waits in a buffer, until more comes
-- than fits into it or the file object is closed.

open FileSystem

structure BufferedWriter where
  inode  : Nat
  buffer : Bytes := []

namespace BufferedWriter

section

variable {ν : Type} (size : Nat) (w : BufferedWriter) (fs : FileSystem ν)

-- The files when the buffer has been written out
def flush : FileSystem ν :=
  fs.append w.inode w.buffer

-- `w.write(data)`. What does not fit into an empty buffer is written at once.
def write (data : Bytes) : BufferedWriter × FileSystem ν :=
  if w.buffer.length + data.length ≤ size then ({ w with buffer := w.buffer ++ data }, fs)
  else if data.length ≤ size then ({ w with buffer := data }, w.flush fs)
  else ({ w with buffer := [] }, (w.flush fs).append w.inode data)

variable {size w fs}

@[simp]
theorem write_inode {data : Bytes} : (w.write size fs data).1.inode = w.inode := by
  unfold write
  split_ifs <;> rfl

-- In whatever parts the bytes reach the file, they follow what was there and what was waiting.
theorem flush_write (data : Bytes) :
    (w.write size fs data).1.flush (w.write size fs data).2 = (w.flush fs).append w.inode data := by
  unfold write
  split_ifs
  · exact (append_append ..).symm
  · rfl
  · exact append_nil ..

end

-- A place for a file object, which may be empty

variable {ν : Type} (w? : Option BufferedWriter) (fs : FileSystem ν)

-- The files when the file object has been closed
def close : FileSystem ν :=
  (w?.map (·.flush fs)).getD fs

def pending : Bytes :=
  (w?.map (·.buffer)).getD []

variable {w? fs}

@[simp]
theorem close_new {i : Nat} : close (some { inode := i }) fs = fs :=
  append_nil i

@[simp]
theorem entry_close : (close w? fs).entry = fs.entry := by
  cases w? <;> rfl

@[simp]
theorem inode?_close {n : ν} : (close w? fs).inode? n = fs.inode? n := by
  cases w? <;> rfl

@[simp]
theorem fresh_close : (close w? fs).fresh = fs.fresh := by
  cases w? <;> rfl

theorem close_of_pending (h : pending w? = []) : close w? fs = fs := by
  cases w?
  case none => rfl
  case some w => rw [close, Option.map_some, Option.getD_some, flush, show w.buffer = [] from h, append_nil]

-- The file of the file object has all that was written to it, and the others are as they were.

theorem content_close {i : Nat} (h : ∀ w, w? = some w → w.inode = i) :
    (close w? fs).content i = fs.content i ++ pending w? := by
  cases w?
  case none => exact (List.append_nil _).symm
  case some w =>
    cases h w rfl
    exact content_append

theorem same_close {n : ν} (h : ∀ w, w? = some w → fs.inode? n ≠ some w.inode) : Same n fs (close w? fs) := by
  cases w?
  case none => exact .refl
  case some w => exact same_append (h w rfl)

-- It makes no difference whether a name is taken away, or given to a new file, before or after the closing.

variable [DecidableEq ν]

theorem close_remove {n : ν} : close w? (fs.remove n) = (close w? fs).remove n := by
  cases w?
  case none => rfl
  case some w => exact remove_append.symm

theorem close_create {n : ν} (h : ∀ w, w? = some w → w.inode < fs.fresh) :
    close w? (fs.create n) = (close w? fs).create n := by
  cases w?
  case none => rfl
  case some w => exact (create_append (h w rfl).ne).symm

end BufferedWriter
