import Peerc.FileTransfer.Upload
import Peerc.Peer.ReadLoop

-- A session that offers a file, a session that receives it, and the connection between them

open Protocol Transfer

-- What the handlers of the receiver send. Ids that are no strings do not come from a session.

def IncomingTransfer.id? (t : IncomingTransfer) : Option Text :=
  match t.transferId with
  | .str transferId => some transferId
  | _               => none

namespace TransferState

variable (P : Primitives) (downloadsDir : Str) (now : Double) (s : TransferState)

-- `_handle_offer` has rejected the offer.
def rejections (free : Option Nat) (addrKey : Str) (p : Packet) : List Json :=
  if p.type? = some (.ofString "file_offer") then
    match considerOffer downloadsDir free addrKey s.fs p with
    | .ok none => (((p.get? "transfer_id").bind Json.str?).map (makeFileReject · now)).toList
    | _        => []
  else []

theorem rejections_of_considered {free : Option Nat} {addrKey : Str} {p : Packet} {offer : Offer}
    (h : considerOffer downloadsDir free addrKey s.fs p = .ok (some offer)) :
    rejections downloadsDir now s free addrKey p = [] := by
  rw [rejections, h]
  exact ite_self []

-- `_abort_incoming` or `_handle_done` waits for its acknowledgement to be sent.
def acknowledgements (s' : TransferState) : List Json :=
  (s'.aborting.take (s'.aborting.length - s.aborting.length)).filterMap (fun (t, reason) =>
    t.id?.map (makeFileCompleteAck · false (.ofString reason))) ++
  (s'.verified.take (s'.verified.length - s.verified.length)).filterMap (fun (t, success) =>
    t.id?.map (makeFileCompleteAck · success (.ofString (if success then "" else "checksum mismatch"))))

def replies : TransferEvent → List Json
  | .receive addrKey free p =>
    rejections downloadsDir now s free addrKey p ++
      s.acknowledgements (s.after (dispatch P downloadsDir free addrKey p))
  | .decide i accept =>
    match s.offers[i]? with
    | none       => []
    | some offer =>
      if ¬accept then (offer.transferId.str?.map (makeFileReject · now)).toList
      else
        match (resumeOffer offer true).run s with
        | .ok ..    => (offer.transferId.str?.map (makeFileAccept · now)).toList
        | .error .. => []
  | .offerFile .. | .abortSent _ | .ackSent _ => []

end TransferState

-- What is offered, and what the receiver has. Both sides read the clock once.
structure Delivery where
  uuid         : Bytes
  -- The connection, as the sender and the receiver name it
  receiverKey  : Str
  senderKey    : Str
  filepath     : Str
  filename     : Text
  content      : Bytes
  offeredAt    : Double
  answeredAt   : Double
  fs           : FileSystem Str
  downloadsDir : Str
  free         : Option Nat

namespace Delivery

variable (d : Delivery)

def transferId : Text :=
  uuidText d.uuid

def upload : Upload where
  transferId := d.transferId
  addrKey    := d.receiverKey
  filepath   := d.filepath
  filename   := d.filename
  content    := d.content

end Delivery

structure Exchange where
  sender     : UploadState := {}
  receiver   : TransferState
  -- What has been written and not yet read
  toReceiver : Bytes := []
  toSender   : Bytes := []

-- Nothing fails: no connection is lost, no time runs out, and the user accepts.
inductive ExchangeEvent
  | offerFile
  | offerSent
  | resume (task : Nat)
  | senderReads
  | receiverReads
  | decide (i : Nat)
  | abortSent (i : Nat)
  | ackSent (i : Nat)

namespace Exchange

variable (P : Primitives) (d : Delivery) (s : Exchange)

-- What a step of the sender has written for the transfer
def output (sender sender' : UploadState) : List Written :=
  let written (s : UploadState) := ((s.uploads.find? d.transferId).map Upload.written).getD []
  (written sender').drop (written sender).length

-- `header + payload`, as it has been put on the connection
def bytes (frame : AnyFrame) : Bytes :=
  (frame.encode P).toOption.getD []

theorem bytes_of_encode {P : Primitives} {f : AnyFrame} {frame : Bytes} (h : f.encode P = .ok frame) :
    bytes P f = frame := by
  rw [bytes, h]
  rfl

def senderStep (e : UploadEvent) : Option Exchange :=
  (s.sender.step P e).map fun sender => { s with
    sender
    toReceiver := s.toReceiver ++ (output d s.sender sender).flatMap (bytes P ·.frame) }

def receiverStep (e : TransferEvent) : Option Exchange :=
  (s.receiver.step P d.downloadsDir e).map fun receiver => { s with
    receiver
    toSender := s.toSender ++ (s.receiver.replies P d.downloadsDir d.answeredAt e).flatMap (bytes P <| .json ·) }

-- `offer_file` has not returned.
def isOffering : Bool :=
  (s.sender.uploads.find? d.transferId).any (·.offering)

def step : ExchangeEvent → Option Exchange
  | .offerFile =>
    s.senderStep P d
      (.offerFile d.transferId d.receiverKey d.filepath d.filename d.content true d.offeredAt)
  | .offerSent     => s.senderStep P d (.offerSent d.transferId true)
  | .resume task   => s.senderStep P d (.resume d.transferId task ⟨true, false, true⟩)
  | .senderReads   =>
    match (nextPacket readExactly P).run s.toSender with
    | .ok p rest =>
      if s.isOffering d then none else { s with toSender := rest }.senderStep P d (.receive p)
    | .error ..  => none
  | .receiverReads =>
    match (nextPacket readExactly P).run s.toReceiver with
    | .ok p rest => { s with toReceiver := rest }.receiverStep P d (.receive d.senderKey d.free p)
    | .error ..  => none
  | .decide i      => s.receiverStep P d (.decide i true)
  | .abortSent i   => s.receiverStep P d (.abortSent i)
  | .ackSent i     => s.receiverStep P d (.ackSent i)

def machine (P : Primitives) (d : Delivery) : Machine Exchange ExchangeEvent where
  Init s := s = { receiver := { fs := d.fs } }
  step   := step P d

end Exchange
