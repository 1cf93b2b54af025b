import Peerc.Lib.Refines
import Peerc.Protocol.Frame

namespace Protocol

-- An `asyncio.StreamReader` whose data arrives in segments. The stream ends after the last one.
structure StreamReader where
  buffer   : Bytes
  segments : List Bytes

namespace StreamReader

def bytes (r : StreamReader) : Bytes :=
  r.buffer ++ r.segments.flatten

-- `readexactly(n)` waits for segments until the buffer is long enough.
def fill (n : Nat) : Bytes → List Bytes → EStateM.Result ReadError StreamReader Bytes
  | buffer, []              =>
    if n ≤ buffer.length then .ok (buffer.take n) ⟨buffer.drop n, []⟩ else .error .incompleteRead ⟨[], []⟩
  | buffer, seg :: segments =>
    if n ≤ buffer.length then .ok (buffer.take n) ⟨buffer.drop n, seg :: segments⟩
    else fill n (buffer ++ seg) segments

def readExactly (n : Nat) : EStateM ReadError StreamReader Bytes :=
  fun r => fill n r.buffer r.segments

end StreamReader

-- What the segments are does not matter.

theorem fill_eq (n : Nat) (buffer : Bytes) (segments : List Bytes) :
    (readExactly n).run (buffer ++ segments.flatten) =
      (StreamReader.fill n buffer segments).mapState StreamReader.bytes := by
  induction segments generalizing buffer
  case nil =>
    rw [List.flatten_nil, List.append_nil, readExactly_run, StreamReader.fill]
    split <;> simp [EStateM.Result.mapState, StreamReader.bytes]
  case cons seg segments hi =>
    rw [StreamReader.fill]
    split
    case isTrue h =>
      have h' : n ≤ (buffer ++ (seg :: segments).flatten).length := by
        rw [List.length_append]
        omega
      rw [readExactly_run, if_pos h', List.take_append_of_le_length h, List.drop_append_of_le_length h]
      rfl
    case isFalse => rw [← hi, List.flatten_cons, List.append_assoc]

theorem readExactly_refines (n : Nat) :
    EStateM.Refines StreamReader.bytes (StreamReader.readExactly n) (readExactly n) :=
  fun r => fill_eq n r.buffer r.segments

section

variable {σ τ : Type} {abs : σ → τ} {r : Nat → EStateM ReadError σ Bytes}
  {r' : Nat → EStateM ReadError τ Bytes}

theorem readRaw_refines (h : ∀ n, EStateM.Refines abs (r n) (r' n)) :
    EStateM.Refines abs (readRaw r) (readRaw r') := by
  refine (h 4).bind fun header => ?_
  dsimp only
  split
  case isTrue => exact .bind (.throw _) fun _ => .bind (h _) fun _ => .pure _
  case isFalse => exact .bind (h _) fun _ => .pure _

theorem readAnyFrame_refines (P : Primitives) (h : ∀ n, EStateM.Refines abs (r n) (r' n)) :
    EStateM.Refines abs (readAnyFrame r P) (readAnyFrame r' P) := by
  refine (readRaw_refines h).bind fun (kind, payload) => ?_
  cases kind
  case binary => exact .pure _
  case json =>
    dsimp only
    split
    · exact .pure _
    · exact .throw _

end

-- The bytes of a frame, as both encoders end: `header + payload`
def encodeRaw : FrameKind → Bytes → Bytes
  | .json,   payload => Bytes.ofNatBE 4 payload.length ++ payload
  | .binary, payload => Bytes.ofNatBE 4 (payload.length + binaryFlag) ++ payload

-- What `_read_raw` accepts: a header with a valid length, followed by as many bytes
theorem readRaw_eq_ok_iff {stream rest payload : Bytes} {kind : FrameKind} :
    (readRaw readExactly).run stream = .ok (kind, payload) rest ↔
      ∃ header, IsHeader kind payload.length header ∧ payload ≠ [] ∧
        payload.length ≤ maxMessageSize ∧ stream = header ++ (payload ++ rest) := by
  refine ⟨fun h => ?_, fun ⟨header, hh, hp, hl, hs⟩ => hs ▸ readRaw_run hh hp hl rest⟩
  by_cases h₄ : 4 ≤ stream.length
  case neg =>
    simp only [readRaw, EStateM.run_bind, readExactly_run, if_neg h₄] at h
    cases h
  simp only [readRaw, EStateM.run_bind, readExactly_run, if_pos h₄] at h
  by_cases hb : Bytes.toNatBE (stream.take 4) % binaryFlag = 0 ∨
      Bytes.toNatBE (stream.take 4) % binaryFlag > maxMessageSize
  case pos =>
    rw [if_pos hb] at h
    cases h
  rw [if_neg hb, EStateM.run_bind, readExactly_run] at h
  by_cases hn : Bytes.toNatBE (stream.take 4) % binaryFlag ≤ (stream.drop 4).length
  case neg =>
    rw [if_neg hn] at h
    cases h
  rw [if_pos hn] at h
  cases h
  have hl : ((stream.drop 4).take (Bytes.toNatBE (stream.take 4) % binaryFlag)).length =
      Bytes.toNatBE (stream.take 4) % binaryFlag := List.length_take_of_le hn
  refine ⟨stream.take 4, ⟨List.length_take_of_le h₄, rfl, hl.symm⟩, ?_, ?_, ?_⟩
  · rw [← List.length_pos_iff]
    omega
  · omega
  · rw [List.take_append_drop, List.take_append_drop]

-- The header is determined by the kind and the length.
theorem IsHeader.append_eq {kind : FrameKind} {header payload : Bytes}
    (h : IsHeader kind payload.length header) : header ++ payload = encodeRaw kind payload := by
  have hv := Bytes.ofNatBE_toNatBE header
  have hlt := Bytes.toNatBE_lt header
  rw [h.length] at hv hlt
  have hw : 256 ^ 4 = 2 * binaryFlag := by decide
  have hd : header.toNatBE / binaryFlag < 2 := Nat.div_lt_of_lt_mul (by rw [Nat.mul_comm, ← hw]; exact hlt)
  have hdm := Nat.div_add_mod header.toNatBE binaryFlag
  rw [h.masked] at hdm
  have hk := h.flag
  obtain h₀ | h₁ := Nat.le_one_iff_eq_zero_or_eq_one.mp (Nat.le_of_lt_succ hd)
  case inl =>
    rw [h₀] at hk hdm
    obtain rfl : .json = kind := hk
    rw [Nat.mul_zero, Nat.zero_add] at hdm
    rw [encodeRaw, hdm, hv]
  case inr =>
    rw [h₁] at hk hdm
    obtain rfl : .binary = kind := hk
    rw [Nat.mul_one, Nat.add_comm] at hdm
    rw [encodeRaw, hdm, hv]

-- A frame whose payload has a valid length
def AnyFrame.Sendable (P : Primitives) : AnyFrame → Prop
  | json m         => m.WellFormed ∧ ∃ payload, encodeJson P m = some payload ∧
      1 ≤ payload.length ∧ payload.length ≤ maxMessageSize
  | binary payload => 1 ≤ payload.length ∧ payload.length ≤ maxMessageSize

def AnyFrame.encode (P : Primitives) : AnyFrame → Except FrameError Bytes
  | json m         => encodeFrame P m
  | binary payload => encodeBinaryFrame payload

variable {P : Primitives}

theorem AnyFrame.Sendable.encode {f : AnyFrame} (h : f.Sendable P) :
    ∃ bs, f.encode P = .ok bs ∧ ∀ rest, (readAnyFrame readExactly P).run (bs ++ rest) = .ok f rest := by
  cases f
  case json m =>
    obtain ⟨hw, payload, he, hp, hl⟩ := h
    have hf : encodeFrame P m = .ok (Bytes.ofNatBE 4 payload.length ++ payload) := by
      simp only [encodeFrame, he, if_neg (Nat.not_lt.mpr hl)]
    exact ⟨_, hf, readAnyFrame_encodeFrame P hw he (List.length_pos_iff.mp hp) hf⟩
  case binary payload =>
    obtain ⟨hp, hl⟩ := h
    have hf : encodeBinaryFrame payload =
        .ok (Bytes.ofNatBE 4 (payload.length + binaryFlag) ++ payload) :=
      if_neg (Nat.not_lt.mpr hl)
    exact ⟨_, hf, readAnyFrame_encodeBinaryFrame P (List.length_pos_iff.mp hp) hf⟩

-- Frames that are written one after the other are read one after the other.
theorem readFrames_encode (frames : List AnyFrame) (h : ∀ f ∈ frames, f.Sendable P) :
    ∃ bs, frames.mapM (·.encode P) = .ok bs ∧
      ∀ (r : StreamReader) rest, r.bytes = bs.flatten ++ rest →
        ∃ r', (frames.mapM fun _ => readAnyFrame StreamReader.readExactly P).run r = .ok frames r' ∧
          r'.bytes = rest := by
  induction frames
  case nil => exact ⟨[], rfl, fun r rest hr => ⟨r, rfl, hr⟩⟩
  case cons f frames hi =>
    obtain ⟨b, hb, hf⟩ := (h f List.mem_cons_self).encode
    obtain ⟨bs, hbs, hfs⟩ := hi fun g hg => h g (List.mem_cons_of_mem _ hg)
    refine ⟨b :: bs, ?_, fun r rest hr => ?_⟩
    case refine_1 => simp only [List.mapM_cons, hb, hbs]; rfl
    case refine_2 =>
      rw [List.flatten_cons, List.append_assoc] at hr
      have hread := hf (bs.flatten ++ rest)
      rw [← hr] at hread
      obtain ⟨r₁, h₁, hr₁⟩ := (readAnyFrame_refines P readExactly_refines).of_ok hread
      obtain ⟨r₂, h₂, hr₂⟩ := hfs r₁ rest hr₁
      refine ⟨r₂, ?_, hr₂⟩
      simp only [List.mapM_cons, EStateM.run_bind, h₁, h₂]
      rfl

end Protocol

open Protocol in
theorem frame_stream_codec (P : Primitives) :
    (∀ frames : List AnyFrame, (∀ f ∈ frames, f.Sendable P) →
      ∃ bs, frames.mapM (·.encode P) = .ok bs ∧
        ∀ (r : StreamReader) rest, r.bytes = bs.flatten ++ rest →
          ∃ r', (frames.mapM fun _ => readAnyFrame StreamReader.readExactly P).run r = .ok frames r' ∧
            r'.bytes = rest) ∧
    (∀ (r r' : StreamReader) kind payload,
      (readRaw StreamReader.readExactly).run r = .ok (kind, payload) r' →
        r.bytes = encodeRaw kind payload ++ r'.bytes ∧
        (kind = .binary → encodeBinaryFrame payload = .ok (encodeRaw kind payload)) ∧
        (kind = .json → ∀ m, encodeJson P m = some payload → encodeFrame P m = .ok (encodeRaw kind payload))) ∧
    ∀ r : StreamReader,
      (∃ raw r', (readRaw StreamReader.readExactly).run r = .ok raw r') ↔
        let length := Bytes.toNatBE (r.bytes.take 4) % binaryFlag
        1 ≤ length ∧ length ≤ maxMessageSize ∧ 4 + length ≤ r.bytes.length := by
  refine ⟨readFrames_encode, fun r r' kind payload h => ?_, fun r => ⟨?_, ?_⟩⟩
  case refine_1 =>
    obtain ⟨header, hh, hp, hl, hs⟩ := readRaw_eq_ok_iff.mp ((readRaw_refines readExactly_refines).ok h)
    have hl' := Nat.not_lt.mpr hl
    refine ⟨by rw [hs, ← List.append_assoc, hh.append_eq], ?_, ?_⟩
    · rintro rfl
      exact if_neg hl'
    · rintro rfl m hm
      simp only [encodeFrame, hm, if_neg hl']
      rfl
  case refine_2 =>
    rintro ⟨⟨kind, payload⟩, r', h⟩
    obtain ⟨header, hh, hp, hl, hs⟩ := readRaw_eq_ok_iff.mp ((readRaw_refines readExactly_refines).ok h)
    have hp := List.length_pos_iff.mpr hp
    have ht : r.bytes.take 4 = header := by rw [hs, List.take_left' hh.length]
    have hlen := congrArg List.length hs
    simp only [List.length_append, hh.length] at hlen
    simp only [ht, hh.masked]
    omega
  case refine_3 =>
    rintro ⟨h₁, hmax, hlen⟩
    generalize hn : Bytes.toNatBE (r.bytes.take 4) % binaryFlag = n at h₁ hmax hlen
    have hd : ((r.bytes.drop 4).take n).length = n :=
      List.length_take_of_le (by rw [List.length_drop]; omega)
    have hh : IsHeader _ ((r.bytes.drop 4).take n).length (r.bytes.take 4) :=
      ⟨List.length_take_of_le (by omega), rfl, by rw [hd, hn]⟩
    have hread := readRaw_eq_ok_iff.mpr ⟨r.bytes.take 4, hh, by rw [← List.length_pos_iff]; omega,
      by omega, (?_ : r.bytes = _ ++ (_ ++ (r.bytes.drop 4).drop n))⟩
    · obtain ⟨r', hr, -⟩ := (readRaw_refines readExactly_refines).of_ok hread
      exact ⟨_, r', hr⟩
    · rw [List.take_append_drop, List.take_append_drop]
