import LispSession.Channel
/-!
# Transcripts

What was written, in order, and to which stream.  A write that was cut short is kept with the number of bytes that were
taken.  `transcriptEntries` shows a transcript as its streams would have shown it: neighbouring writes to one stream are
one stretch of text, and writes of which nothing was taken are not there.
-/
namespace LispSession

/-- The stream a text appears on. -/
inductive Stream where
  | out
  | err
  deriving DecidableEq, Repr

/-- A text offered to a stream, and how many of its bytes were taken. -/
structure Writing where
  stream : Stream
  text : String
  taken : Nat

namespace Writing

/-- The bytes that reached the stream. -/
def bytes (w : Writing) : List UInt8 := w.text.toUTF8.toList.take w.taken

end Writing

/-- Join neighbours on one stream; the entry under way is held in reverse. -/
def joinStreams (done : List (Stream × List UInt8)) :
    List (Stream × List UInt8) → List (Stream × List UInt8)
  | [] => (done.map fun (stream, bytes) => (stream, bytes.reverse)).reverse
  | (stream, bytes) :: later =>
    match done with
    | (last, sofar) :: before =>
      if last = stream then joinStreams ((last, bytes.reverseAux sofar) :: before) later
      else joinStreams ((stream, bytes.reverse) :: done) later
    | [] => joinStreams [(stream, bytes.reverse)] later

/-- What the streams show for a list of writes, first write first. -/
def transcriptEntries (writings : List Writing) : List (Stream × String) :=
  let pieces := (writings.map fun w => (w.stream, w.bytes)).filter fun (_, bytes) => !bytes.isEmpty
  (joinStreams [] pieces).map fun (stream, bytes) => (stream, showUtf8 bytes)

end LispSession
