import LetsEmbed.Proofs.DbLinks
import LetsEmbed.Systems.Alone

/-! An import that runs alone. It creates the rows that its input names and that are
missing, and links each post to all that is listed under its title; how the input is
ordered, or cut into calls, makes no difference to what is there and linked. -/

namespace LetsEmbed.Db
open Systems Isolation

/-- What the tables enforce, and no import is running. -/
structure Consistent (s : State) : Prop where
  unique : (s.rows.map (·.key)).Nodup
  ids : ∀ row ∈ s.rows, ∀ other ∈ s.rows, row.key.1 = other.key.1 → row.id = other.id → row = other
  fresh : ∀ row ∈ s.rows, row.id < s.nextId
  named : ∀ row ∈ s.rows, blank row.key.2 = false
  references : ∀ link ∈ s.links, (∃ post ∈ s.rows, post.id = link.post ∧ post.key.1 = .post) ∧
    ∃ other ∈ s.rows, other.id = link.other ∧ other.key.1 = link.entity
  distinct : s.links.Nodup
  idle : Idle s

/-- Every value that is not blank is one its column takes. -/
def Fits (i : Meta) : Prop :=
  (∀ entity, ∀ name ∈ i.names entity, blank name = false → name.toList.length ≤ entity.limit) ∧
    ∀ image ∈ i.images, blank image.name = false → 0 < image.width ∧ 0 < image.height

/-- A row is needed for every name that is not blank. -/
def Needs (input : List Meta) (key : Key) : Prop := key.2 ∈ listed input key.1 ∧ blank key.2 = false

/-- The name is listed under the title, and neither is blank. -/
def Lists (input : List Meta) (title : String) (entity : Entity) (name : String) : Prop :=
  blank title = false ∧ blank name = false ∧ ∃ i ∈ input, i.title = title ∧ name ∈ i.names entity

/-- No row is changed, each that is needed and missing is created once, and the links
are the old ones with those listed. -/
structure Imported (input : List Meta) (s s' : State) : Prop where
  rows : ∃ created, s'.rows = s.rows ++ created ∧ (created.map (·.key)).Nodup ∧
    (∀ key, has created key = true ↔ Needs input key ∧ has s.rows key = false) ∧
    ∀ row ∈ created, if row.key.1 = .image then offered input row.key.2 row.value = true else row.value = none
  links : ∃ added, s'.links = s.links ++ added
  linked : ∀ title, ∀ entity ≠ Entity.post, ∀ name,
    Linked s' title entity name ↔ Linked s title entity name ∨ Lists input title entity name

/-! ## One import -/

section Statement
variable {input : List Meta} {key : Key} {size : Size} {stored : Key × Size} {entity : Entity} {name : String}

theorem needs_of_inserted (member : name ∈ inserted input entity) : Needs input (entity, name) := by
  have filtered : name ∈ (listed input entity).filter (!blank ·) := by
    rw [inserted] at member
    split at member
    next => exact member
    next => exact List.mem_dedup.mp member
  rw [List.mem_filter, Bool.not_eq_true'] at filtered
  exact filtered

theorem mem_wanted_iff : key ∈ wanted input ↔ Needs input key := by
  constructor
  · intro member
    obtain ⟨entity, _, member⟩ := List.mem_flatMap.mp member
    obtain ⟨name, inserts, rfl⟩ := List.mem_map.mp member
    exact needs_of_inserted inserts
  · intro ⟨member, named⟩
    exact mem_wanted member named

theorem assign_of_le {limit : Nat} (fits : name.toList.length ≤ limit) : assign limit name = some name := if_pos fits

theorem length_le_of_needs (fits : ∀ i ∈ input, Fits i) (needs : Needs input key) : key.2.toList.length ≤ key.1.limit := by
  obtain ⟨i, member, named⟩ := List.mem_flatMap.mp needs.1
  exact (fits i member).1 _ _ named needs.2

theorem exists_offered (fits : ∀ i ∈ input, Fits i) (needs : Needs input (.image, name)) :
    ∃ size, offered input name size = true := by
  obtain ⟨i, member, named⟩ := List.mem_flatMap.mp needs.1
  obtain ⟨image, shown, rfl⟩ := List.mem_map.mp named
  obtain ⟨wide, high⟩ := (fits i member).2 image shown needs.2
  refine ⟨some (image.width, image.height), ?_⟩
  rw [offered, Bool.and_eq_true, Bool.and_eq_true, List.any_eq_true]
  exact ⟨⟨decide_eq_true wide, decide_eq_true high⟩, image, List.mem_flatMap_of_mem member shown, decide_eq_true rfl⟩

theorem stored_of_fits (fits : ∀ i ∈ input, Fits i) (needs : Needs input key) : Db.stored input key size =
    if (if key.1 = .image then offered input key.2 size else size.isNone) then some (key, size) else none := by
  rw [Db.stored, assign_of_le (length_le_of_needs fits needs)]
  rfl

theorem verbatim (fits : ∀ i ∈ input, Fits i) : Verbatim upsertMetas input := by
  intro key wanted
  have needs := mem_wanted_iff.mp wanted
  constructor
  · obtain ⟨entity, name⟩ := key
    by_cases image : entity = .image
    · subst image
      obtain ⟨size, offered⟩ := exists_offered fits needs
      exact ⟨size, (_, size), (stored_of_fits fits needs).trans (if_pos offered)⟩
    · exact ⟨none, (_, none), (stored_of_fits fits needs).trans (if_pos (by rw [if_neg image]; rfl))⟩
  · intro size row stored
    have stored := (stored_of_fits fits needs).symm.trans stored
    rw [Option.ite_none_right_eq_some] at stored
    rw [← Option.some.inj stored.2]

end Statement

section Import
variable {s s' : State} {input : List Meta} {returned : List Row} {row other : Row} {entity : Entity} {title name : String}

/-- Of a new row, what its key and its size are. -/
theorem created_of_done (done : Done upsertMetas s input s' returned) (fits : ∀ i ∈ input, Fits i) (member : row ∈ returned) :
    Needs input row.key ∧ has s.rows row.key = false ∧
      if row.key.1 = .image then offered input row.key.2 row.value = true else row.value = none := by
  obtain ⟨wanted, missing, size, stored⟩ := done.new row member
  have needs := mem_wanted_iff.mp wanted
  have stored := (stored_of_fits fits needs).symm.trans stored
  rw [Option.ite_none_right_eq_some] at stored
  obtain ⟨allowed, same⟩ := stored
  refine ⟨needs, missing, ?_⟩
  cases (Prod.mk.inj (Option.some.inj same)).2
  split
  next image => rwa [if_pos image] at allowed
  next other => rwa [if_neg other, Option.isNone_iff_eq_none] at allowed

theorem of_mem_joined (member : row ∈ joined (visible input entity returned s.rows) name) :
    row ∈ s.rows ++ returned ∧ row.key = (entity, name) := by
  obtain ⟨seen, named⟩ := List.mem_filter.mp member
  have named := of_decide_eq_true named
  cases List.mem_append.mp seen with
  | inl new =>
    obtain ⟨member, kind⟩ := List.mem_filter.mp new
    exact ⟨List.mem_append_right _ member, Prod.ext (of_decide_eq_true kind) named⟩
  | inr old =>
    obtain ⟨member, kind⟩ := List.mem_filter.mp old
    exact ⟨List.mem_append_left _ member, Prod.ext (of_decide_eq_true kind).1 named⟩

/-- The rows a link was made from. -/
theorem of_mem_links {link : Link} (member : link ∈ links input returned s.rows) : link.entity ≠ .post ∧
    ∃ i ∈ input, ∃ name ∈ i.names link.entity, ∃ post ∈ s.rows ++ returned, ∃ other ∈ s.rows ++ returned,
      post.key = (.post, i.title) ∧ other.key = (link.entity, name) ∧ link.post = post.id ∧ link.other = other.id := by
  obtain ⟨entity, known, member⟩ := List.mem_flatMap.mp member
  obtain ⟨i, listed, member⟩ := List.mem_flatMap.mp member
  obtain ⟨post, posts, member⟩ := List.mem_flatMap.mp member
  obtain ⟨name, named, member⟩ := List.mem_flatMap.mp member
  obtain ⟨other, others, rfl⟩ := List.mem_map.mp member
  obtain ⟨postThere, postKey⟩ := of_mem_joined posts
  obtain ⟨otherThere, otherKey⟩ := of_mem_joined others
  refine ⟨fun post => ?_, i, listed, name, named, post, postThere, other, otherThere, postKey, otherKey, rfl, rfl⟩
  rw [show entity = .post from post] at known
  simp at known

theorem Consistent.done (consistent : Consistent s) (fits : ∀ i ∈ input, Fits i)
    (done : Done upsertMetas s input s' returned) : Consistent s' where
  unique := by
    rw [done.rows, List.map_append]
    apply consistent.unique.append done.distinct.2
    intro key old new
    obtain ⟨row, there, rfl⟩ := List.mem_map.mp old
    obtain ⟨created, member, same⟩ := List.mem_map.mp new
    have missing := (created_of_done done fits member).2.1
    rw [has_iff.mpr ⟨row, there, same.symm⟩] at missing
    cases missing
  ids := by
    intro row member other member' kind same
    rw [done.rows] at member member'
    cases List.mem_append.mp member with
    | inl old =>
      cases List.mem_append.mp member' with
      | inl old' => exact consistent.ids row old other old' kind same
      | inr new' =>
        have below := consistent.fresh row old
        have above := (done.ids other new').1
        omega
    | inr new =>
      cases List.mem_append.mp member' with
      | inl old' =>
        have below := consistent.fresh other old'
        have above := (done.ids row new).1
        omega
      | inr new' => exact List.inj_on_of_nodup_map done.distinct.1 new new' same
  fresh := by
    intro row member
    rw [done.rows] at member
    cases List.mem_append.mp member with
    | inl old => exact Nat.lt_of_lt_of_le (consistent.fresh row old) done.grows
    | inr new => exact (done.ids row new).2
  named := by
    intro row member
    rw [done.rows] at member
    cases List.mem_append.mp member with
    | inl old => exact consistent.named row old
    | inr new => exact (created_of_done done fits new).1.2
  references := by
    intro link member
    rw [done.links] at member
    rw [done.rows]
    cases List.mem_append.mp member with
    | inl old =>
      obtain ⟨⟨post, there, same, kind⟩, other, there', same', kind'⟩ := consistent.references link old
      exact ⟨⟨post, List.mem_append_left _ there, same, kind⟩, other, List.mem_append_left _ there', same', kind'⟩
    | inr new =>
      obtain ⟨_, _, _, _, _, post, there, other, there', key, key', same, same'⟩ :=
        of_mem_links (List.mem_dedup.mp (List.mem_filter.mp new).1)
      exact ⟨⟨post, there, same.symm, key ▸ rfl⟩, other, there', same'.symm, key' ▸ rfl⟩
  distinct := by
    rw [done.links]
    apply consistent.distinct.append ((List.nodup_dedup _).filter _)
    intro link old new
    exact of_decide_eq_true (List.mem_filter.mp new).2 old
  idle := done.idle

/-- In consistent tables a pair of ids stands for one pair of names. -/
theorem Consistent.same (consistent : Consistent s) (member : row ∈ s.rows) (member' : other ∈ s.rows)
    (key : row.key = (entity, name)) (kind : other.key.1 = entity) (same : row.id = other.id) : row = other := by
  apply consistent.ids row member other member' _ same
  rw [key, kind]

/-- A row that is needed takes part in the joins. -/
theorem exists_joined (done : Done upsertMetas s input s' returned) (needs : Needs input (entity, name)) :
    ∃ row ∈ joined (visible input entity returned s.rows) name, row ∈ s'.rows ∧ row.key = (entity, name) := by
  have seen : ∃ row ∈ returned ++ s.rows, row.key = (entity, name) := by
    cases done.complete _ (mem_wanted_iff.mpr needs) with
    | inl new =>
      obtain ⟨row, member, key⟩ := has_iff.mp new
      exact ⟨row, List.mem_append_left _ member, key⟩
    | inr old =>
      obtain ⟨row, member, key⟩ := has_iff.mp old
      exact ⟨row, List.mem_append_right _ member, key⟩
  obtain ⟨row, member, key⟩ := seen
  have joined := mem_joined member key needs.1
  exact ⟨row, joined, done.rows ▸ (of_mem_joined joined).1, key⟩

theorem linked_of_done (consistent : Consistent s) (fits : ∀ i ∈ input, Fits i)
    (done : Done upsertMetas s input s' returned) (kind : entity ≠ .post) :
    Linked s' title entity name ↔ Linked s title entity name ∨ Lists input title entity name := by
  have after := consistent.done fits done
  have kept : ∀ row ∈ s.rows, row ∈ s'.rows := fun row member => done.rows ▸ List.mem_append_left _ member
  constructor
  · intro ⟨post, there, other, there', key, key', linked⟩
    rw [done.links] at linked
    cases List.mem_append.mp linked with
    | inl old =>
      obtain ⟨⟨post₀, before, same, kind⟩, other₀, before', same', kind'⟩ := consistent.references _ old
      cases after.same there (kept _ before) key kind same.symm
      cases after.same there' (kept _ before') key' kind' same'.symm
      exact .inl ⟨post, before, other, before', key, key', old⟩
    | inr new =>
      obtain ⟨_, i, listed, named, member, post₀, seen, other₀, seen', key₀, key₀', same, same'⟩ :=
        of_mem_links (List.mem_dedup.mp (List.mem_filter.mp new).1)
      rw [← done.rows] at seen seen'
      cases after.same there seen key (key₀ ▸ rfl) same
      cases after.same there' seen' key' (key₀' ▸ rfl) same'
      cases (key.symm.trans key₀)
      cases (key'.symm.trans key₀')
      refine .inr ⟨?_, ?_, i, listed, rfl, member⟩
      · have named := after.named post there
        rwa [key] at named
      · have named := after.named other there'
        rwa [key'] at named
  · intro either
    cases either with
    | inl before =>
      obtain ⟨post, there, other, there', key, key', linked⟩ := before
      exact ⟨post, kept _ there, other, kept _ there', key, key', done.links ▸ List.mem_append_left _ linked⟩
    | inr listed =>
      obtain ⟨titled, named, i, member, rfl, present⟩ := listed
      have title : i.title ∈ Db.listed input .post := mem_listed member List.mem_cons_self
      obtain ⟨post, posts, there, key⟩ := exists_joined done ⟨title, titled⟩
      obtain ⟨other, others, there', key'⟩ := exists_joined done ⟨mem_listed member present, named⟩
      refine ⟨post, there, other, there', key, key', ?_⟩
      have made := mem_links member present kind posts others
      rw [done.links]
      by_cases known : ⟨entity, post.id, other.id⟩ ∈ s.links
      · exact List.mem_append_left _ known
      · exact List.mem_append_right _ (List.mem_filter.mpr ⟨List.mem_dedup.mpr made, decide_eq_true known⟩)

theorem has_of_done (done : Done upsertMetas s input s' returned) (fits : ∀ i ∈ input, Fits i) (key : Key) :
    has returned key = true ↔ Needs input key ∧ has s.rows key = false := by
  constructor
  · intro new
    obtain ⟨row, member, rfl⟩ := has_iff.mp new
    obtain ⟨needs, missing, _⟩ := created_of_done done fits member
    exact ⟨needs, missing⟩
  · intro ⟨needs, missing⟩
    cases done.complete key (mem_wanted_iff.mpr needs) with
    | inl new => exact new
    | inr old =>
      rw [missing] at old
      cases old

theorem imported_of_done (consistent : Consistent s) (fits : ∀ i ∈ input, Fits i)
    (done : Done upsertMetas s input s' returned) : Imported input s s' where
  rows := ⟨returned, done.rows, done.distinct.2, has_of_done done fits, fun _ member => (created_of_done done fits member).2.2⟩
  links := ⟨_, done.links⟩
  linked _ _ kind _ := linked_of_done consistent fits done kind

/-- Nothing is left to do for what was imported before. -/
theorem unchanged_of_done {again : State} {later : List Row} (consistent : Consistent s) (fits : ∀ i ∈ input, Fits i)
    (done : Done upsertMetas s input s' returned) (repeated : Done upsertMetas s' input again later) :
    again.rows = s'.rows ∧ again.links = s'.links := by
  have after := consistent.done fits done
  have nothing : later = [] := by
    rw [List.eq_nil_iff_forall_not_mem]
    intro row member
    obtain ⟨needs, missing, _⟩ := created_of_done repeated fits member
    obtain ⟨found, _, there, key⟩ := exists_joined done needs
    rw [has_iff.mpr ⟨found, there, key⟩] at missing
    cases missing
  subst nothing
  refine ⟨by rw [repeated.rows, List.append_nil], ?_⟩
  rw [repeated.links, List.append_right_eq_self, List.filter_eq_nil_iff]
  intro link made missing
  obtain ⟨kind, i, listed, name, member, post, there, other, there', key, key', same, same'⟩ :=
    of_mem_links (List.mem_dedup.mp made)
  rw [List.append_nil] at there there'
  have titled := after.named post there
  have named := after.named other there'
  rw [key] at titled
  rw [key'] at named
  obtain ⟨post₀, before, other₀, before', key₀, key₀', linked⟩ :=
    (linked_of_done consistent fits done kind).mpr (.inr ⟨titled, named, i, listed, rfl, member⟩)
  cases List.inj_on_of_nodup_map after.unique there before (key.trans key₀.symm)
  cases List.inj_on_of_nodup_map after.unique there' before' (key'.trans key₀'.symm)
  rw [← same, ← same'] at linked
  exact of_decide_eq_true missing linked

end Import

/-! ## Imports one after another -/

/-- What is there and linked is what was before, and what is listed. -/
structure Extends (input : List Meta) (s s' : State) : Prop where
  rows : ∀ key, has s'.rows key = true ↔ has s.rows key = true ∨ Needs input key
  linked : ∀ title, ∀ entity ≠ Entity.post, ∀ name,
    Linked s' title entity name ↔ Linked s title entity name ∨ Lists input title entity name

section Calls
variable {s s' next last : State} {input earlier later : List Meta} {calls : List (List Meta)} {key : Key} {entity : Entity}
  {title name : String}

theorem needs_append : Needs (earlier ++ later) key ↔ Needs earlier key ∨ Needs later key := by
  simp only [Needs, listed, List.flatMap_append, List.mem_append, or_and_right]

theorem lists_append : Lists (earlier ++ later) title entity name ↔ Lists earlier title entity name ∨ Lists later title entity name := by
  simp only [Lists, List.mem_append, or_and_right, exists_or, and_or_left]

theorem needs_of_perm (perm : earlier.Perm later) : Needs earlier key ↔ Needs later key := by
  simp only [Needs, listed, List.mem_flatMap, perm.mem_iff]

theorem lists_of_perm (perm : earlier.Perm later) : Lists earlier title entity name ↔ Lists later title entity name := by
  simp only [Lists, perm.mem_iff]

theorem Extends.trans (first : Extends earlier s next) (second : Extends later next last) : Extends (earlier ++ later) s last where
  rows key := by rw [second.rows, first.rows, needs_append, or_assoc]
  linked title entity kind name := by rw [second.linked _ _ kind, first.linked _ _ kind, lists_append, or_assoc]

theorem Imported.extends (imported : Imported input s s') : Extends input s s' where
  rows key := by
    obtain ⟨created, rows, _, needed, _⟩ := imported.rows
    rw [rows, has_append, Bool.or_eq_true, needed]
    cases has s.rows key <;> simp
  linked := imported.linked

/-- Every import of a succession adds what it lists. -/
theorem extends_of_successive (consistent : Consistent s) (fits : ∀ i ∈ calls.flatten, Fits i)
    (successive : Successive upsertMetas s calls last) : Extends calls.flatten s last := by
  induction calls generalizing s with
  | nil =>
    rw [show last = s from successive]
    exact ⟨fun key => by simp [Needs, listed], fun title entity _ name => by simp [Lists]⟩
  | cons asked later ih =>
    obtain ⟨next, alone, rest⟩ := successive
    rw [List.flatten_cons] at fits ⊢
    have fitsAsked : ∀ i ∈ asked, Fits i := fun i member => fits i (List.mem_append_left _ member)
    obtain ⟨returned, done⟩ := done_of_alone (verbatim fitsAsked) alone consistent.idle
    have first := (imported_of_done consistent fitsAsked done).extends
    exact first.trans (ih (consistent.done fitsAsked done) (fun i member => fits i (List.mem_append_right _ member)) rest)

theorem exists_successive (consistent : Consistent s) (fits : ∀ i ∈ calls.flatten, Fits i) :
    ∃ last, Successive upsertMetas s calls last := by
  induction calls generalizing s with
  | nil => exact ⟨s, rfl⟩
  | cons asked later ih =>
    rw [List.flatten_cons] at fits
    have fitsAsked : ∀ i ∈ asked, Fits i := fun i member => fits i (List.mem_append_left _ member)
    obtain ⟨next, alone⟩ := exists_alone (verbatim fitsAsked) consistent.idle
    obtain ⟨returned, done⟩ := done_of_alone (verbatim fitsAsked) alone consistent.idle
    obtain ⟨last, rest⟩ := ih (consistent.done fitsAsked done) fun i member => fits i (List.mem_append_right _ member)
    exact ⟨last, next, alone, rest⟩

end Calls

/-- Whatever is there already, an import that runs alone, as imports may among others, ends,
adds exactly what it lists, and adds nothing when it is run again; cut into calls and reordered, it leaves
the same rows by name and the same links. -/
theorem import_exact {s : State} (consistent : Consistent s) {input : List Meta} (fits : ∀ i ∈ input, Fits i) :
    (∃ s', Alone upsertMetas s input s') ∧ ∀ s', Alone upsertMetas s input s' →
      Imported input s s' ∧ Consistent s' ∧ (∃ past, (machine s).Run (fun _ _ _ => True) s past s') ∧
      ((∃ again, Alone upsertMetas s' input again) ∧
        ∀ again, Alone upsertMetas s' input again → again.rows = s'.rows ∧ again.links = s'.links) ∧
      ∀ calls : List (List Meta), calls.flatten.Perm input → (∃ last, Successive upsertMetas s calls last) ∧
        ∀ last, Successive upsertMetas s calls last → (∀ key, has last.rows key = has s'.rows key) ∧
          ∀ title, ∀ entity ≠ Entity.post, ∀ name, Linked last title entity name ↔ Linked s' title entity name := by
  refine ⟨exists_alone (verbatim fits) consistent.idle, fun s' alone => ?_⟩
  obtain ⟨returned, done⟩ := done_of_alone (verbatim fits) alone consistent.idle
  have imported := imported_of_done consistent fits done
  have after := consistent.done fits done
  refine ⟨imported, after, alone.reached, ⟨exists_alone (verbatim fits) after.idle, fun again repeated => ?_⟩, fun calls perm => ?_⟩
  · obtain ⟨later, done'⟩ := done_of_alone (verbatim fits) repeated after.idle
    exact unchanged_of_done consistent fits done done'
  · have fitsCalls : ∀ i ∈ calls.flatten, Fits i := fun i member => fits i (perm.mem_iff.mp member)
    refine ⟨exists_successive consistent fitsCalls, fun last successive => ?_⟩
    have parts := extends_of_successive consistent fitsCalls successive
    have whole := imported.extends
    constructor
    · intro key
      rw [Bool.eq_iff_iff, parts.rows, whole.rows, needs_of_perm perm]
    · intro title entity kind name
      rw [parts.linked _ _ kind, whole.linked _ _ kind, lists_of_perm perm]

section Example

/-- A post with an image. -/
def shown : State := ⟨[⟨1, (.post, "dawn"), none⟩, ⟨2, (.image, "a.png"), some (8, 6)⟩], [⟨.image, 1, 2⟩], 3, []⟩

/-- It comes twice, with the image in another size; a tag comes twice, and one is blank. -/
def more : List Meta := [
  ⟨"dawn", ["Ann"], ["sky", "sky", " "], [⟨"a.png", 4, 3⟩, ⟨"b.png", 4, 3⟩]⟩,
  ⟨"dawn", [], ["sky"], []⟩]

theorem more_imported : ∃ s', Alone upsertMetas shown more s' ∧ (∃ created, s'.rows = shown.rows ++ created) ∧
    Linked s' "dawn" .image "b.png" ∧ Linked s' "dawn" .tag "sky" ∧ ¬ Linked s' "dawn" .tag " " := by
  have consistent : Consistent shown := {
    unique := by decide
    ids := by decide
    fresh := by decide
    named := by decide
    references := by decide
    distinct := by decide
    idle := by simp [Idle, shown] }
  have fits : ∀ i ∈ more, Fits i := by
    intro i member
    simp only [more, List.mem_cons, List.not_mem_nil, or_false] at member
    rcases member with rfl | rfl
    · exact ⟨fun entity => by cases entity <;> decide, by decide⟩
    · exact ⟨fun entity => by cases entity <;> decide, by decide⟩
  obtain ⟨⟨s', alone⟩, exact⟩ := import_exact consistent fits
  obtain ⟨imported, _⟩ := exact s' alone
  obtain ⟨created, rows, _⟩ := imported.rows
  refine ⟨s', alone, ⟨created, rows⟩, ?_, ?_, fun blankTag => ?_⟩
  · apply (imported.linked _ _ (by decide) _).mpr (.inr _)
    exact ⟨by decide, by decide, _, List.mem_cons_self, rfl, by decide⟩
  · apply (imported.linked _ _ (by decide) _).mpr (.inr _)
    exact ⟨by decide, by decide, _, List.mem_cons_self, rfl, by decide⟩
  · cases (imported.linked _ _ (by decide) _).mp blankTag with
    | inl old => exact absurd old (by decide)
    | inr listed => exact absurd listed.2.1 (by decide)

end Example

end LetsEmbed.Db
