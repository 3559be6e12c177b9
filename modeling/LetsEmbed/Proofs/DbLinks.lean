import LetsEmbed.Db

/-! Concurrent imports. An insert that meets a row committed since its statement
started returns nothing, and the statement cannot see that row either: what it
lists under the name is then not linked. -/

namespace LetsEmbed.Db
open Systems Isolation

/-- The post and the name are there, and linked. -/
def Linked (s : State) (title : String) (entity : Entity) (name : String) : Prop :=
  ∃ post ∈ s.rows, ∃ other ∈ s.rows, post.key = (.post, title) ∧ other.key = (entity, name) ∧
    ⟨entity, post.id, other.id⟩ ∈ s.links

instance (s title entity name) : Decidable (Linked s title entity name) :=
  inferInstanceAs (Decidable (∃ post ∈ s.rows, ∃ other ∈ s.rows, _ ∧ _ ∧ _))

section Statement
variable {input : List Meta} {i : Meta} {entity : Entity} {name : String} {returned snapshot : List Row} {row post other : Row}

theorem mem_listed (member : i ∈ input) (named : name ∈ i.names entity) : name ∈ listed input entity :=
  List.mem_flatMap.mpr ⟨i, member, named⟩

theorem mem_wanted (listed : name ∈ listed input entity) (named : blank name = false) : (entity, name) ∈ wanted input := by
  have inserts : name ∈ inserted input entity := by
    have filtered : name ∈ (Db.listed input entity).filter (!blank ·) := List.mem_filter.mpr ⟨listed, by simp [named]⟩
    rw [inserted]
    split
    · exact filtered
    · exact List.mem_dedup.mpr filtered
  rw [wanted, List.mem_flatMap]
  exact ⟨entity, by cases entity <;> simp, List.mem_map_of_mem inserts⟩

/-- A row that was seen takes part in the joins on its name. -/
theorem mem_joined (seen : row ∈ returned ++ snapshot) (key : row.key = (entity, name)) (named : name ∈ listed input entity) :
    row ∈ joined (visible input entity returned snapshot) name := by
  rw [joined, List.mem_filter, visible, List.mem_append, List.mem_filter, List.mem_filter, key]
  refine ⟨?_, decide_eq_true rfl⟩
  rcases List.mem_append.mp seen with own | old
  · exact .inl ⟨own, decide_eq_true rfl⟩
  · exact .inr ⟨old, decide_eq_true ⟨rfl, named⟩⟩

theorem mem_links (member : i ∈ input) (named : name ∈ i.names entity) (kind : entity ≠ .post)
    (posts : post ∈ joined (visible input .post returned snapshot) i.title)
    (others : other ∈ joined (visible input entity returned snapshot) name) :
    ⟨entity, post.id, other.id⟩ ∈ links input returned snapshot := by
  have known : entity ∈ [Entity.image, .author, .tag] := by
    cases entity with
    | post => exact (kind rfl).elim
    | image => decide
    | author => decide
    | tag => decide
  apply List.mem_flatMap_of_mem known
  apply List.mem_flatMap_of_mem member
  apply List.mem_flatMap_of_mem posts
  apply List.mem_flatMap_of_mem named
  exact List.mem_map_of_mem others

end Statement

/-- Once every import has succeeded, everything listed under a title is linked to its
post, so long as every name fits its column and an insert that finds its name
taken meets a row that was there when its statement started. -/
theorem imports_linked (start : State) (idle : start.sessions = [])
    {past : List (Event State (Input (List Meta) Key Size) Unit)} {state : State}
    (run : (machine start).Run (foreseen upsertMetas) start past state)
    (succeeded : ∀ session ∈ state.sessions, session.committed = true) :
    ∀ session ∈ state.sessions, ∀ i ∈ session.input, ∀ entity ≠ Entity.post, ∀ name ∈ i.names entity,
      blank i.title = false → blank name = false → Linked state i.title entity name := by
  intro session member i listed entity kind name named titled present
  have kept := kept_of_run idle run session member
  have committed := succeeded session member
  have title : i.title ∈ Db.listed session.input .post := mem_listed listed List.mem_cons_self
  have name' := mem_listed listed named
  obtain ⟨post, postSeen, postKey, postThere⟩ := seen_of_kept kept committed (mem_wanted title titled)
  obtain ⟨other, otherSeen, otherKey, otherThere⟩ := seen_of_kept kept committed (mem_wanted name' present)
  refine ⟨post, postThere, other, otherThere, postKey, otherKey, (kept.done committed).2.2 _ ?_⟩
  exact mem_links listed named kind (mem_joined postSeen postKey title) (mem_joined otherSeen otherKey name')

section Example
open Machine

def tagged (title tag : String) : Meta := ⟨title, [], [tag], []⟩

def empty : State := ⟨[], [], 1, []⟩

/-- Both calls have started when the first inserts the tag; the second waits for it. -/
def overlapping : List (Input (List Meta) Key Size) := [
  .start [tagged "dawn" "sky"],
  .start [tagged "dusk" "sky"],
  .insert 0 (.post, "dawn") none,
  .insert 0 (.tag, "sky") none,
  .insert 1 (.post, "dusk") none,
  .insert 1 (.tag, "sky") none,
  .commit 0,
  .insert 1 (.tag, "sky") none,
  .commit 1]

theorem link_lost : ∃ past state, (machine empty).Run (fun _ _ _ => True) empty past state ∧
    (∀ session ∈ state.sessions, session.committed = true) ∧
    Linked state "dawn" .tag "sky" ∧ ¬ Linked state "dusk" .tag "sky" := by
  have run : (machine empty).Run (fun _ _ _ => True) empty _ _ :=
    Run.start.play overlapping (permitted_always (fun _ _ _ => trivial) _ _)
  exact ⟨_, _, run, by decide +kernel, by decide +kernel, by decide +kernel⟩

/-- The second call starts when the first has committed, and meets its tag. -/
def following : List (Input (List Meta) Key Size) := [
  .start [tagged "dawn" "sky"],
  .insert 0 (.post, "dawn") none,
  .insert 0 (.tag, "sky") none,
  .commit 0,
  .start [tagged "dusk" "sky"],
  .insert 1 (.post, "dusk") none,
  .insert 1 (.tag, "sky") none,
  .commit 1]

theorem imports_linked_following :
    let state := ((machine empty).play ([], empty) following).2
    state.sessions.length = 2 ∧ ∀ session ∈ state.sessions, ∀ i ∈ session.input, ∀ entity ≠ Entity.post,
      ∀ name ∈ i.names entity, blank i.title = false → blank name = false → Linked state i.title entity name := by
  intro state
  have run : (machine empty).Run (foreseen upsertMetas) empty _ _ := Run.start.play following (by decide +kernel)
  exact ⟨by decide +kernel, imports_linked empty rfl run (by decide +kernel)⟩

end Example

end LetsEmbed.Db
