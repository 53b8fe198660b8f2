import Supervision.Json.Numeral
import Supervision.Json.Printer
import Supervision.Text.Character
import Supervision.Text.Numeral

/-!
# Frames

A frame is a block of header lines, an empty line, and a body of exactly as many bytes as the header
`Content-Length` says; the body is one JSON value. `encode` is the canonical frame of a value. This
module holds the header line and what can be wrong with a frame; reading and writing are beside it.
-/

namespace Supervision.Frame

open Text

def lengthKey : String := "Content-Length"

def maxBytes : Nat := 16 * 1024 * 1024

/-- Why the bytes of a stream could not be had. -/
inductive SourceError
  /-- A header line is not UTF-8. -/
  | notUtf8 (fault : Utf8.Fault)
  | earlyEnd
  /-- Reading failed, with the text of the failure. -/
  | failed (text : String)
  deriving DecidableEq, Repr

def SourceError.message : SourceError → String
  | .notUtf8 fault => fault.message
  | .earlyEnd => "early eof"
  | .failed text => text

/-- What can be wrong with a frame that is read. -/
inductive ReadError
  | malformedLine (line : String)
  | badLength (value : String) (why : CountError)
  | noLength
  | endInHeader
  | tooLong (length : Nat)
  | header (why : SourceError)
  | body (why : SourceError)
  | decoding (why : Json.ReadError)
  deriving DecidableEq, Repr

/-- The text of a frame's fault, without its cause. -/
def ReadError.message : ReadError → String
  | .malformedLine line => s!"malformed header line: {Quoted.render line}"
  | .badLength value _ => s!"invalid {lengthKey} value: {Quoted.render value}"
  | .noLength => s!"frame header has no {lengthKey}"
  | .endInHeader => "stream ended inside a frame header"
  | .tooLong n => s!"frame of {n} bytes exceeds limit of {maxBytes}"
  | .header _ => "reading frame header"
  | .body _ => "reading frame body"
  | .decoding _ => "decoding frame body as JSON"

/-- What a frame's fault rests on. -/
inductive Cause
  | text (message : String)
  | json (why : Json.ReadError)
  deriving DecidableEq, Repr

/-- The cause of a frame's fault, if it has one. -/
def ReadError.cause? : ReadError → Option Cause
  | .badLength _ why => some (.text why.message)
  | .header why => some (.text why.message)
  | .body why => some (.text why.message)
  | .decoding why => some (.json why)
  | _ => none

/-- The text before the first colon and the text after it. -/
def splitColon : List Char → Option (List Char × List Char)
  | [] => none
  | c :: rest =>
    if c = ':' then some ([], rest)
    else (splitColon rest).map (fun p => (c :: p.1, p.2))

/-- Equality up to the case of ASCII letters. -/
def sameLetters (a b : List Char) : Bool :=
  a.map Char.toLower == b.map Char.toLower

/-- A header line, blanks at its ends dropped: the length it sets, or `none` if it is another
header. Only the header that counts is looked into. -/
def lineLength (line : List Char) : Except ReadError (Option Nat) :=
  match splitColon line with
  | none => .error (.malformedLine (String.ofList line))
  | some (key, value) =>
    if sameLetters (trimBlanks key) lengthKey.toList then
      match readCount sizeLimit (trimBlanks value) with
      | .ok n => .ok (some n)
      | .error why => .error (.badLength (String.ofList (trimBlanks value)) why)
    else .ok none

/-- The header block of a body of `n` bytes. -/
def header (n : Nat) : List UInt8 :=
  Utf8.encode s!"{lengthKey}: {n}\r\n\r\n"

def enclose (body : List UInt8) : List UInt8 :=
  header body.length ++ body

def encode (v : Json) : List UInt8 :=
  enclose v.encode

end Supervision.Frame
