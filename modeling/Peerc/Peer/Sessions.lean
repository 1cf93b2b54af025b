import Peerc.Chat.Effect
import Peerc.FileTransfer.Effect

-- The two sessions on one `ConnectionManager`. Each message type belongs to one of them, so that it makes no
-- difference whether a message passes along the chain of `_dispatch` or both are notified.
structure Sessions where
  chat  : ChatState := {}
  files : TransferState

-- What the handler of a message does between two points where it is suspended: from the arrival of the
-- message on a connection, or from the decision of the user or the end of its reply
inductive HandlerPart
  | arrived (addrKey : Str) (free : Option Nat) (p : Packet)
  | decided (offer : Offer) (accept : Bool)
  | abortSent (addrKey : Str) (t : IncomingTransfer) (reason : String)
  | ackSent (addrKey : Str) (t : IncomingTransfer) (success : Bool)

namespace HandlerPart

-- The connection of the message
def addrKey : HandlerPart → Str
  | arrived addrKey .. | abortSent addrKey .. | ackSent addrKey .. => addrKey
  | decided offer _ => offer.addrKey

variable (P : Primitives) (downloadsDir : Str) (s : Sessions)

def exec : HandlerPart → Sessions
  | arrived addrKey free p => {
      chat  := s.chat.after (ChatState.dispatch p)
      files := s.files.after (TransferState.dispatch P downloadsDir free addrKey p)
    }
  | decided offer accept   => { s with files := s.files.after (TransferState.resumeOffer offer accept) }
  | abortSent _ t reason   => { s with files := s.files.after (TransferState.resumeAbort t reason) }
  | ackSent _ t success    => { s with files := s.files.after (TransferState.resumeDone t success) }

-- The part ends with the exception.
def Raises (e : HandlerError) : HandlerPart → Prop
  | arrived addrKey free p =>
    ((ChatState.dispatch p).run s.chat).error? = some e ∨
      ((TransferState.dispatch P downloadsDir free addrKey p).run s.files).error? = some e
  | decided offer accept   => ((TransferState.resumeOffer offer accept).run s.files).error? = some e
  | abortSent _ t reason   => ((TransferState.resumeAbort t reason).run s.files).error? = some e
  | ackSent _ t success    => ((TransferState.resumeDone t success).run s.files).error? = some e

-- After the first part the handler waits, and goes on with the second one.
def Resumes (part : HandlerPart) : HandlerPart → Prop
  | arrived ..                 => False
  | decided offer _            =>
    (part.exec P downloadsDir s).files.offers = s.files.offers ++ [offer]
  | abortSent addrKey t reason => addrKey = part.addrKey ∧
    (part.exec P downloadsDir s).files.aborting = (t, reason) :: s.files.aborting
  | ackSent addrKey t success  => addrKey = part.addrKey ∧
    (part.exec P downloadsDir s).files.verified = (t, success) :: s.files.verified

end HandlerPart
