/-!
# Texts as bytes
-/
namespace DeskCalc.Text

/-- The text that bytes encode in UTF-8, if they do. -/
def decode (bs : List UInt8) : Option String := String.fromUTF8? ⟨bs.toArray⟩

end DeskCalc.Text
