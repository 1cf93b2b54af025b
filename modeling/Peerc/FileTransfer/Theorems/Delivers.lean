import Peerc.FileTransfer.Joint
import Peerc.Handshake.Theorems.Completes

-- A file that is offered and accepted is delivered

open Protocol Transfer TransferState FileSystem

namespace Delivery

variable {P : Primitives} {d : Delivery} {destPath : Str} {s : Exchange}

-- The receiver has the file, and nothing else of the transfer. The sender knows.
structure Delivered (d : Delivery) (destPath : Str) (s : Exchange) : Prop where
  success : s.receiver.completions.map (·.success) = [true]
  content : s.receiver.fs.read? destPath = some d.content
  part    : s.receiver.fs.entry (getPartPath destPath) = none
  sender  : ∃ u, s.sender.uploads.find? d.transferId = some u ∧ u.ackEvent ∧ u.ackSuccess ∧ d.Sent u

theorem Stage.delivered (hs : d.Stage P destPath 0 s) : d.Delivered destPath s := by
  cases hs
  case start hm => omega
  case offered hm => omega
  case streaming x y acked fin u hs =>
    have hl := hs.left
    have hx := hs.x_le
    have hy := hs.y_le
    obtain rfl : x = d.chunks.length + 3 := by omega
    obtain rfl : y = d.chunks.length + 1 := by omega
    obtain rfl : fin = true := by
      cases fin
      case false => exact absurd hl (by simp only [Bool.not_false, Bool.toNat_true]; omega)
      case true => rfl
    obtain ⟨rfl, hsent⟩ := hs.sent (Nat.le_refl _)
    obtain ⟨success, content, part⟩ := hs.received.of_completed
    exact {
      success
      content
      part
      sender := ⟨u, hs.sender ▸ UploadState.find?_alone hs.sending.transferId, hs.sending.ackEvent,
        hs.sending.ackSuccess rfl, hsent⟩
    }

end Delivery

open Exchange in
theorem honest_transfer_delivers (P : Primitives) (hP : P.Lawful) (d : Delivery) (destPath : Str)
    (h : d.Acceptable P destPath) :
    (∀ c ∈ d.upload.chunks, ∃ payload frame,
      encodeFileData d.transferId.val c.sequence c.offset c.data = .ok payload ∧
      encodeBinaryFrame payload = .ok frame ∧
      ∀ rest, (nextPacket readExactly P).run (frame ++ rest) = .ok (c.packet d.transferId) rest) ∧
    (∀ s, (machine P d).Reachable s →
      (∀ p rest, (nextPacket readExactly P).run s.toReceiver = .ok p rest →
        p.type? = some (.ofString "file_data") →
          (∃ c ∈ d.upload.chunks, p = c.packet d.transferId) ∧ s.receiver.accepts p) ∧
      ((∀ e, (machine P d).step s e = none) → d.Delivered destPath s)) ∧
    ∀ s s' events, (machine P d).Init s → (machine P d).exec (fun _ _ => True) s events = some s' →
      events.length ≤ 2 * d.upload.chunks.length + 11 := by
  refine ⟨fun c hc => ?_, fun s hs => ?_, fun s s' events hs he => ?_⟩
  · obtain ⟨frame, hf, hp⟩ := h.frame_chunk hc
    exact ⟨_, frame, h.encode_chunk hc, hf, nextPacket_frame hp⟩
  · obtain ⟨m, hm⟩ := Delivery.Stage.of_reachable h hP hs
    refine ⟨fun p rest hn hp => hm.accepts h hP hn hp, fun hn => ?_⟩
    rcases Nat.eq_zero_or_pos m with rfl | hlt
    · exact hm.delivered
    · obtain ⟨e, he⟩ := hm.progress h hP hlt
      rw [show s.step P d e = none from hn e] at he
      cases he
  · have hstep : ∀ {m s e s'}, d.Stage P destPath m s → (machine P d).step s e = some s' →
        ∃ m' < m, d.Stage P destPath m' s' := fun hm he => hm.step h hP he
    exact Machine.length_le_of_decreasing hstep (.start hs rfl) events he

namespace Delivery

-- A file of one byte

def oneByte : Delivery where
  uuid         := List.replicate 16 0
  receiverKey  := .ofString "10.0.0.2:5000"
  senderKey    := .ofString "10.0.0.1:5000"
  filepath     := .ofString "/home/a.txt"
  filename     := .ofString "a.txt"
  content      := [0xAB]
  offeredAt    := ⟨0⟩
  answeredAt   := ⟨0⟩
  fs           := .empty
  downloadsDir := .ofString "downloads"
  free         := none

def oneBytePath : Str :=
  .ofString "downloads/a.txt"

open Handshake.Loopback in
theorem oneByte_acceptable : oneByte.Acceptable prims oneBytePath where
  uuid     := rfl
  size     := by decide
  space    := rfl
  dest     := by decide +kernel
  staging  := by decide
  fits     := fits_fileOffer prims_lawful (by decide) (by decide) (by decide) (by decide) (by decide) (by decide) _
  offered  := by decide
  answered := by decide

end Delivery

open Handshake.Loopback Exchange Delivery in
theorem honest_transfer_delivers_byte :
    oneByte.Acceptable prims oneBytePath ∧
    ∀ s, (machine prims oneByte).Reachable s → (∀ e, (machine prims oneByte).step s e = none) →
      s.receiver.fs.read? oneBytePath = some [0xAB] := by
  refine ⟨oneByte_acceptable, fun s hs he => ?_⟩
  obtain ⟨-, hd, -⟩ := honest_transfer_delivers prims prims_lawful oneByte oneBytePath oneByte_acceptable
  exact ((hd s hs).right he).content
