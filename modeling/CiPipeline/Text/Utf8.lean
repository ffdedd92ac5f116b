/-!
# UTF-8

The bytes in which a text is written. A text that is cut up can be written part by part.
-/

namespace CiPipeline.Text

/-- The bytes that spell a text in UTF-8. -/
def utf8 (text : List Char) : List UInt8 := text.flatMap String.utf8EncodeChar

@[simp] theorem utf8_append (text more : List Char) :
    utf8 (text ++ more) = utf8 text ++ utf8 more :=
  List.flatMap_append

end CiPipeline.Text
