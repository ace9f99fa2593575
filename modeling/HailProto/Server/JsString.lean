import HailProto.Codec.Text

/-!
# The strings of JavaScript

A string is its sequence of UTF-16 code units, compared unit by unit. A surrogate need not have a
partner, so that not every string is the text of Unicode characters.
-/

namespace HailProto.Server

/-- A UTF-16 code unit. -/
abbrev CodeUnit := Fin 65536

instance codeUnit_neZero : NeZero 65536 := ⟨by decide⟩

/-- A string, in the order of `<`. -/
abbrev JsString := List CodeUnit

instance jsString_lawfulBEq : LawfulBEq JsString := inferInstance

/-- The code units of a text, as in a string literal. -/
def js (text : String) : JsString := (Codec.utf16 text).map (Fin.ofNat 65536)

end HailProto.Server
