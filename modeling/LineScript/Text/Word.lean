import LineScript.Text.Basic
import LineScript.Text.WordTable

namespace LineScript.Text

/-- Letters, marks, decimal digits and connectors of every script. -/
def isWord (c : Char) : Bool :=
  if c.toNat < 0x80 then c.isAlphanum || c == '_' else WordTable.contains c.toNat

def isName (text : Text) : Bool :=
  !text.isEmpty && text.all isWord

theorem isWord_of_isAlphanum {c : Char} (h : c.isAlphanum) : isWord c := by
  have : c.toNat < 0x80 := by
    delta Char.isAlphanum Char.isAlpha Char.isUpper Char.isLower Char.isDigit at h
    simp [UInt32.le_iff_toNat_le] at h
    omega
  simp [isWord, this, h]

end LineScript.Text
