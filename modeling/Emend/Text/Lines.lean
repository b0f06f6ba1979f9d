/-! Bytes as lines of text. -/
namespace Emend.Text

/-- The line whose bytes come last first; one carriage return at its end does not belong to it. -/
def closeLine : List UInt8 → List UInt8
  | 0x0D :: reversed => reversed.reverse
  | reversed => reversed.reverse

/-- `current` holds the bytes of the line that is being read, last first, and `done` the lines
before it, last first. The last line needs no newline, and keeps a carriage return without one. -/
def splitLinesOnto (done : List (List UInt8)) (current : List UInt8) :
    List UInt8 → List (List UInt8)
  | [] => (if current.isEmpty then done else current.reverse :: done).reverse
  | b :: bs =>
    if b = 0x0A then splitLinesOnto (closeLine current :: done) [] bs
    else splitLinesOnto done (b :: current) bs

def splitLines (bytes : List UInt8) : List (List UInt8) := splitLinesOnto [] [] bytes

/-- The text of a line, if it is UTF-8. -/
def decodeLine (line : List UInt8) : Option String := String.fromUTF8? line.toByteArray

end Emend.Text
