/-! Whether one text occurs in another. -/
namespace Emend.Text

def occursIn (part : List Char) : List Char → Bool
  | [] => part.isEmpty
  | c :: cs => part.isPrefixOf (c :: cs) || occursIn part cs

/-- Whether one of two texts occurs in the other. -/
def overlaps (s t : List Char) : Bool := occursIn s t || occursIn t s

end Emend.Text
