import PeerShare.Text.Utf8

/-!
What can go wrong outside of a program and what it cannot go on with: why an operation on files or
on the network failed, what becomes of a connection to another host, and a computation of which a
number has left its range.
-/

namespace PeerShare

inductive IoCause
  | notFound
  | permissionDenied
  | alreadyExists
  | notDirectory
  | isDirectory
  | nameTooLong
  | tooManyLinks
  | nulInName
  | notUtf8Text
  | connectionRefused
  | networkUnreachable
  | invalidSocketAddress
  | invalidPort
  | unexpectedEnd
  | earlyEnd
  | other (text : String)
  deriving DecidableEq, Repr

def IoCause.message : IoCause → String
  | .notFound => "No such file or directory (os error 2)"
  | .permissionDenied => "Permission denied (os error 13)"
  | .alreadyExists => "File exists (os error 17)"
  | .notDirectory => "Not a directory (os error 20)"
  | .isDirectory => "Is a directory (os error 21)"
  | .nameTooLong => "File name too long (os error 36)"
  | .tooManyLinks => "Too many levels of symbolic links (os error 40)"
  | .nulInName => "file name contained an unexpected NUL byte"
  | .notUtf8Text => "stream did not contain valid UTF-8"
  | .connectionRefused => "Connection refused (os error 111)"
  | .networkUnreachable => "Network is unreachable (os error 101)"
  | .invalidSocketAddress => "invalid socket address"
  | .invalidPort => "invalid port value"
  | .unexpectedEnd => "unexpected end of file"
  | .earlyEnd => "early eof"
  | .other text => text

/-- What becomes of a connection, as far as the one who opened it can tell. -/
inductive Delivery
  | refused (cause : IoCause)
  | unanswered
  | silence
  | received (bytes : Bytes)
  deriving Inhabited

inductive Halt
  | idsExhausted
  | clockOverflow
  | zeroPeriod
  | tooManySlots
  deriving DecidableEq, Repr

def Halt.message : Halt → String
  | .idsExhausted => "attempt to add with overflow"
  | .clockOverflow => "`DateTime + TimeDelta` overflowed"
  | .zeroPeriod => "`period` must be non-zero."
  | .tooManySlots =>
    "a semaphore may not have more than MAX_PERMITS permits (2305843009213693951)"

end PeerShare
