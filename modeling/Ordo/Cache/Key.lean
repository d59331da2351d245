import Ordo.Digest.Sha256
import Ordo.Text.Blank
import Ordo.Text.Lower

namespace Ordo.Cache

/-!
# Cache keys

Analyses are kept under the digest of the analysed text, in a normal form that forgets layout
and letter case.

* `normalForm` — the normal form;
* `key` — the key of a text.
-/

/-- The words of a text in lower case, with one space between them. -/
def normalForm (s : String) : String :=
  String.ofList (Text.lower ([' '].intercalate (Text.words s.toList)))

/-- The key of a text. -/
def key (s : String) : String := Digest.sha256Hex (normalForm s)

end Ordo.Cache
