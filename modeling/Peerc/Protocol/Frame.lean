import Peerc.Primitives
import Peerc.Lib.Json.RoundTrip
import Peerc.Protocol.Messages

-- core/protocol/frame.py

namespace Protocol

def maxMessageSize : Nat := 100 * 1024 * 1024

def binaryFlag : Nat := 0x80000000

-- `valueError` is raised by `json` for an integer with too many digits.
inductive FrameError
  | protocolError (msg : Message)
  | valueError

-- `json.dumps(message).encode("utf-8")`
def encodeJson (P : Primitives) (message : Json) : Option Bytes :=
  (message.dumps P.floats .default).bind Str.encodeUtf8

def encodeFrame (P : Primitives) (message : Json) : Except FrameError Bytes :=
  match encodeJson P message with
  | none         => .error .valueError
  | some payload =>
    if payload.length > maxMessageSize then
      .error <| .protocolError [.text "message too large: ", .int payload.length, .text " bytes"]
    else .ok (Bytes.ofNatBE 4 payload.length ++ payload)

def encodeBinaryFrame (payload : Bytes) : Except FrameError Bytes :=
  if payload.length > maxMessageSize then
    .error <| .protocolError [.text "binary payload too large: ", .int payload.length, .text " bytes"]
  else .ok (Bytes.ofNatBE 4 (payload.length + binaryFlag) ++ payload)

-- What `json.loads(payload.decode("utf-8"))` raises
inductive DecodeError
  | unicodeDecodeError
  | jsonDecodeError
  | valueError

def loadsUtf8 (P : Primitives) (payload : Bytes) : Except DecodeError Json :=
  match Str.decodeUtf8 payload with
  | none   => .error .unicodeDecodeError
  | some s =>
    match Json.loads P.floats s with
    | .ok v               => .ok v
    | .error .decodeError => .error .jsonDecodeError
    | .error .valueError  => .error .valueError

-- `_decode_json`
def decodeJson (P : Primitives) (payload : Bytes) : Except FrameError Json :=
  match loadsUtf8 P payload with
  | .ok v => .ok v
  | .error .unicodeDecodeError =>
    .error <| .protocolError [.text "malformed JSON payload: ", .exc "UnicodeDecodeError"]
  | .error .jsonDecodeError =>
    .error <| .protocolError [.text "malformed JSON payload: ", .exc "JSONDecodeError"]
  | .error .valueError => .error .valueError

theorem loadsUtf8_encodeJson {P : Primitives} {v : Json} {payload : Bytes} (hw : v.WellFormed)
    (h : encodeJson P v = some payload) : loadsUtf8 P payload = .ok v := by
  simp only [encodeJson, Option.bind_eq_some_iff] at h
  obtain ⟨t, hd, he⟩ := h
  have hu : Str.decodeUtf8 payload = some t := Str.decodeUtf8_ascii (Json.dumps_isAscii v t hd) he
  simp only [loadsUtf8, hu, Json.loads_dumps hw hd]

theorem decodeJson_encodeJson {P : Primitives} {v : Json} {payload : Bytes} (hw : v.WellFormed)
    (h : encodeJson P v = some payload) : decodeJson P payload = .ok v := by
  simp only [decodeJson, loadsUtf8_encodeJson hw h]

inductive ReadError
  | incompleteRead
  | frame (e : FrameError)

inductive FrameKind
  | json
  | binary

inductive AnyFrame
  | json (message : Json)
  | binary (payload : Bytes)

section

variable {m : Type → Type} [Monad m] [MonadExceptOf ReadError m] (readExactly : Nat → m Bytes)

-- `_read_raw`. The top bit of the length is the flag.
def readRaw : m (FrameKind × Bytes) := do
  let rawLength := Bytes.toNatBE (← readExactly 4)
  let kind := if rawLength / binaryFlag % 2 = 1 then .binary else .json
  let length := rawLength % binaryFlag
  if length = 0 ∨ length > maxMessageSize then
    throw <| .frame <| .protocolError [.text "invalid frame length: ", .int length]
  let payload ← readExactly length
  return (kind, payload)

def readAnyFrame (P : Primitives) : m AnyFrame := do
  match ← readRaw readExactly with
  | (.json, payload) =>
    match decodeJson P payload with
    | .ok message => return .json message
    | .error e    => throw (ReadError.frame e)
  | (.binary, payload) => return .binary payload

end

-- An `asyncio.StreamReader`, given by the bytes that the network has still to hand over. It ends after
-- them: a reader that waits for more has not been resumed yet.
abbrev ReadM := EStateM ReadError Bytes

-- `reader.readexactly(n)`, which empties the buffer when the stream ends too early
def readExactly (n : Nat) : ReadM Bytes := do
  let stream ← get
  if n ≤ stream.length then
    set (stream.drop n)
    return stream.take n
  set ([] : Bytes)
  throw .incompleteRead

theorem readExactly_run (n : Nat) (stream : Bytes) :
    (readExactly n).run stream =
      if n ≤ stream.length then .ok (stream.take n) (stream.drop n) else .error .incompleteRead [] := by
  simp only [readExactly, EStateM.run_bind, EStateM.run_get]
  split <;> rfl

theorem readExactly_append (bs rest : Bytes) :
    (readExactly bs.length).run (bs ++ rest) = .ok bs rest := by
  have h : bs.length ≤ (bs ++ rest).length := by simp
  rw [readExactly_run, if_pos h, List.take_left, List.drop_left]

-- The length field of a frame. It is kept abstract, since the kernel would count up to the flag.
structure IsHeader (kind : FrameKind) (n : Nat) (header : Bytes) : Prop where
  length : header.length = 4
  flag   : (if header.toNatBE / binaryFlag % 2 = 1 then .binary else .json) = kind
  masked : header.toNatBE % binaryFlag = n

theorem isHeader_json {n : Nat} (h : n ≤ maxMessageSize) : IsHeader .json n (Bytes.ofNatBE 4 n) := by
  have hlt : n < binaryFlag := Nat.lt_of_le_of_lt h (by decide)
  have hn : n < 256 ^ 4 := Nat.lt_trans hlt (by decide)
  refine ⟨Bytes.ofNatBE_length _ _, ?_, ?_⟩
  · rw [Bytes.toNatBE_ofNatBE, Nat.mod_eq_of_lt hn, Nat.div_eq_of_lt hlt]
    rfl
  · rw [Bytes.toNatBE_ofNatBE, Nat.mod_eq_of_lt hn, Nat.mod_eq_of_lt hlt]

theorem isHeader_binary {n : Nat} (h : n ≤ maxMessageSize) :
    IsHeader .binary n (Bytes.ofNatBE 4 (n + binaryFlag)) := by
  have hlt : n < binaryFlag := Nat.lt_of_le_of_lt h (by decide)
  have hpos : 0 < binaryFlag := by decide
  have hw : binaryFlag + binaryFlag = 256 ^ 4 := by decide
  have hn : n + binaryFlag < 256 ^ 4 := hw ▸ Nat.add_lt_add_right hlt _
  refine ⟨Bytes.ofNatBE_length _ _, ?_, ?_⟩
  · rw [Bytes.toNatBE_ofNatBE, Nat.mod_eq_of_lt hn, Nat.add_div_right n hpos, Nat.div_eq_of_lt hlt]
    rfl
  · rw [Bytes.toNatBE_ofNatBE, Nat.mod_eq_of_lt hn, Nat.add_mod_right, Nat.mod_eq_of_lt hlt]

theorem readRaw_run {kind : FrameKind} {header payload : Bytes} (hh : IsHeader kind payload.length header)
    (hp : payload ≠ []) (hl : payload.length ≤ maxMessageSize) (rest : Bytes) :
    (readRaw readExactly).run (header ++ (payload ++ rest)) = .ok (kind, payload) rest := by
  have hb : ¬(payload.length = 0 ∨ payload.length > maxMessageSize) := by
    have := List.length_pos_iff.mpr hp
    omega
  have hr := readExactly_append header (payload ++ rest)
  rw [hh.length] at hr
  simp only [readRaw, EStateM.run_bind, hr, hh.masked, hh.flag, if_neg hb, readExactly_append]
  rfl

theorem readAnyFrame_binary (P : Primitives) {header payload : Bytes}
    (hh : IsHeader .binary payload.length header) (hp : payload ≠ [])
    (hl : payload.length ≤ maxMessageSize) (rest : Bytes) :
    (readAnyFrame readExactly P).run (header ++ (payload ++ rest)) = .ok (.binary payload) rest := by
  simp only [readAnyFrame, EStateM.run_bind, readRaw_run hh hp hl rest]
  rfl

-- A frame that was written is read back, whatever follows it.
theorem readAnyFrame_encodeBinaryFrame (P : Primitives) {payload frame : Bytes} (hp : payload ≠ [])
    (h : encodeBinaryFrame payload = .ok frame) (rest : Bytes) :
    (readAnyFrame readExactly P).run (frame ++ rest) = .ok (.binary payload) rest := by
  simp only [encodeBinaryFrame] at h
  split at h
  case isTrue => cases h
  case isFalse hl =>
    have hl := Nat.le_of_not_lt hl
    have hh := isHeader_binary hl
    generalize Bytes.ofNatBE 4 (payload.length + binaryFlag) = header at h hh
    cases h
    rw [List.append_assoc]
    exact readAnyFrame_binary P hh hp hl rest

theorem readAnyFrame_encodeFrame (P : Primitives) {m : Json} {payload frame : Bytes} (hw : m.WellFormed)
    (he : encodeJson P m = some payload) (hp : payload ≠ []) (h : encodeFrame P m = .ok frame)
    (rest : Bytes) : (readAnyFrame readExactly P).run (frame ++ rest) = .ok (.json m) rest := by
  simp only [encodeFrame, he] at h
  split at h <;> cases h
  case isFalse hl =>
    have hl := Nat.le_of_not_lt hl
    rw [List.append_assoc]
    simp only [readAnyFrame, EStateM.run_bind, readRaw_run (isHeader_json hl) hp hl rest,
      decodeJson_encodeJson hw he]
    rfl

end Protocol
