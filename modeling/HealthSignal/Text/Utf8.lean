/-!
Texts as UTF-8 bytes, and the order of texts by their bytes.
-/
namespace HealthSignal.Text

def utf8 (s : String) : List UInt8 := s.toList.flatMap String.utf8EncodeChar

def precedes (s t : String) : Bool := decide (utf8 s < utf8 t)

end HealthSignal.Text
