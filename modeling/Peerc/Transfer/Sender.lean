import Peerc.Transfer.Receiver

namespace Transfer

-- core/transfer/chunker.py

structure Chunk where
  sequence : Nat
  offset   : Nat
  data     : Bytes

-- The loop of `read_chunks`. Each turn but the last reads at least one byte.
def readLoop (chunkSize : Nat) : (fuel : Nat) → (rest : Bytes) → (currentOffset sequenceIndex : Nat) →
    List Chunk
  | 0,        _,    _,             _             => []
  | fuel + 1, rest, currentOffset, sequenceIndex =>
    let chunk := rest.take chunkSize
    if chunk = [] then []
    else ⟨sequenceIndex, currentOffset, chunk⟩ ::
      readLoop chunkSize fuel (rest.drop chunkSize) (currentOffset + chunk.length) (sequenceIndex + 1)

def readChunks (source : Bytes) (startOffset chunkSize : Nat) : Except Failure (List Chunk) := do
  let totalSize := source.length
  if startOffset > totalSize then
    throw <| .valueError [.text "start_offset ", .int startOffset, .text " exceeds file size ",
      .int totalSize]
  if chunkSize = 0 then throw .zeroDivision
  return readLoop chunkSize totalSize (source.drop startOffset) startOffset (startOffset / chunkSize)

-- core/transfer/sender.py

-- The sender of a file with the content `source`
structure FileSender where
  source    : Bytes
  chunkSize : Nat

namespace FileSender

variable (sender : FileSender)

def size : Nat :=
  sender.source.length

def checksum (P : Primitives) : Str :=
  (P.sha256 sender.source).hex

def getChunks (startOffset : Nat) : Except Failure (List Chunk) :=
  readChunks sender.source startOffset sender.chunkSize

end FileSender
end Transfer
