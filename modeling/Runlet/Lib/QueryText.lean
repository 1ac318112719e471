import Runlet.Lib.PercentText
import Runlet.Lib.UrlText

/-!
The query of a URL and the form a server reads in it: what stands behind the first question
mark and before the fragment, cut at `&` and `=`, a plus for a blank and the rest
percent-encoded. Pairs written behind a URL are read behind the pairs it had, unless they
end up in its fragment.
-/

namespace Runlet.QueryText

open PercentText Text UrlText

/-- A query behind a URL, or behind the query it has. -/
def extend (url : List Char) (pairs : List Pair) : List Char :=
  url ++ (if '?' ∈ url then '&' else '?') :: joinPairs pairs

end Runlet.QueryText
