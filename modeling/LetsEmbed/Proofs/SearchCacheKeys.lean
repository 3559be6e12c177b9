import LetsEmbed.SearchCache

/-! What the caches of the vector searches answer. A question is known by its hash
alone, so questions of one hash share a vector. -/

namespace LetsEmbed.SearchEngine
open Systems Memo

namespace Models
variable {V : Type} (m : Models V)

/-- Every call is served with the vector that its own question has. -/
def ClipTransparent (asked : List String → Prop) : Prop :=
  ∀ past state, m.clipCache.Run (asking asked) .empty past state → Transparent m.clipEmbedding past

def Dinov3Transparent (asked : List (List UInt8) → Prop) : Prop :=
  ∀ past state, m.dinov3Cache.Run (asking asked) .empty past state → Transparent m.dinov3Embedding past

/-- Then a cached search is the search. -/
theorem clipCached_eq {past : Past (List String) UInt64 V String} (transparent : Transparent m.clipEmbedding past) :
    ∀ event ∈ past, ∀ answer ∈ event.output, ∀ limit offset,
      m.searchClipCached answer.2 limit offset = m.searchClip answer.1 limit offset := by
  intro event member answer given limit offset
  rw [transparent event member answer given]
  rfl

theorem dinov3Cached_eq {past : Past (List (List UInt8)) UInt64 V String} (transparent : Transparent m.dinov3Embedding past) :
    ∀ event ∈ past, ∀ answer ∈ event.output, ∀ limit offset,
      m.searchDinov3Cached answer.2 limit offset = m.searchDinov3 answer.1 limit offset := by
  intro event member answer given limit offset
  rw [transparent event member answer given]
  rfl

/-- The caches are transparent, whatever is asked in whatever order, if and only if no
two questions that may be asked share a hash and not their vector. Every cached search
then finds what the search itself does. -/
theorem caches_transparent_iff (m : Models V) (texts : List String → Prop) (images : List (List UInt8) → Prop) :
    (m.ClipTransparent texts ↔ Separates describesHash m.clipEmbedding texts) ∧
      (m.Dinov3Transparent images ↔ Separates imagesHash m.dinov3Embedding images) ∧
      (m.ClipTransparent texts → ∀ past state, m.clipCache.Run (asking texts) .empty past state →
        ∀ event ∈ past, ∀ answer ∈ event.output, ∀ limit offset,
          m.searchClipCached answer.2 limit offset = m.searchClip answer.1 limit offset) ∧
      (m.Dinov3Transparent images → ∀ past state, m.dinov3Cache.Run (asking images) .empty past state →
        ∀ event ∈ past, ∀ answer ∈ event.output, ∀ limit offset,
          m.searchDinov3Cached answer.2 limit offset = m.searchDinov3 answer.1 limit offset) :=
  ⟨transparent_iff, transparent_iff, fun transparent past state run => m.clipCached_eq (transparent past state run),
    fun transparent past state run => m.dinov3Cached_eq (transparent past state run)⟩

end Models

section Collision

def first : List String := ["aknegglinahobhdf"]

def second : List String := ["kpaloeieocklbndo"]

/-- Texts are their own vectors. -/
def verbatim : Models (List String) := ⟨.ok, fun _ => .error "dinov3_session not enblaed", fun _ => [], fun _ => []⟩

/-- The second text is served with the vector of the first. -/
theorem second_served_first : describesHash first = describesHash second ∧
    (∃ past state, verbatim.clipCache.Run (asking fun _ => True) .empty past state ∧
      ∃ event ∈ past, (second, .ok first) ∈ event.output ∧ verbatim.clipEmbedding second ≠ .ok first) ∧
    ¬verbatim.ClipTransparent fun _ => True := by
  have same : describesHash first = describesHash second := by decide +kernel
  have other : verbatim.clipEmbedding second ≠ .ok first := by
    intro equal
    exact absurd (Except.ok.inj equal) (by decide)
  obtain ⟨past, state, run, event, member, answered⟩ :=
    @kept_answer _ _ _ _ _ describesHash verbatim.clipEmbedding (fun _ => True) _ _ first same trivial trivial rfl
  refine ⟨same, ⟨past, state, run, event, member, answered, other⟩, fun transparent => other ?_⟩
  exact (transparent past state run event member _ answered).symm

end Collision

end LetsEmbed.SearchEngine
