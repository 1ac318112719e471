import Runlet.Lib.QueryText
import Runlet.Lib.TextCodec

/-!
`buildUrl` of `js/http.js`: the parameters of a `GET` as the query of its URL. An entry is a
key in the order of `Object.keys` and what `String` makes of its value; a key or a value
that is half a surrogate pair is no text, and `encodeURIComponent` throws.
-/

namespace Runlet.HttpWrapper

open PercentText QueryText TextCodec UrlText

abbrev Entry := CodeUnits × CodeUnits

def bytesOf (texts : String × String) : Bytes × Bytes := (utf8 texts.1, utf8 texts.2)

end Runlet.HttpWrapper
