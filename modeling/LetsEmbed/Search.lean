import LetsEmbed.Systems.Percent
import LetsEmbed.Text

/-! The URLs of media in the search app (`search/app/src/util.rs`). -/

namespace LetsEmbed.Search
open Text Systems

def isUnreserved (c : Char) : Bool := c.isAlphanum || "-_.~".toList.contains c

/-- `urlencoding::encode`. -/
def urlencode (s : String) : String := String.ofList (Percent.encode isUnreserved s.toList)

def encodePath (path : String) : String := "/".intercalate ((split '/' path).map urlencode)

def imageSrc (name : String) : String := "/images/" ++ encodePath name ++ ".webp"

end LetsEmbed.Search
