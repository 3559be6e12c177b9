import Mathlib.Data.List.Flatten
import Mathlib.Data.List.Perm.Subperm
import LetsEmbed.Embed

/-! Claims of images while every result is written within `reclaim_after` of its
claim. A claim is held by ticket, and what is written under it is the end of it. -/

namespace LetsEmbed.Embed
open Systems ProcessStatus

/-- Every claim in some worker's hands, in a pipeline or in a write. -/
def State.live (s : State) : List Job := s.jobs ++ s.writes.flatMap fun write => write.completed ++ write.failed

/-- The claims whose results a statement writes. -/
def Input.written (s : State) : Input → List Job
  | .complete write => (s.writes[write]?.map (·.completed)).getD []
  | .reset write => (s.writes[write]?.map fun pending => if pending.completed = [] then pending.failed else []).getD []
  | _ => []

def overdue (reclaimAfter : Nat) (s : State) (job : Job) : Prop := job.claimedAt + reclaimAfter < s.clock

instance (reclaimAfter s job) : Decidable (overdue reclaimAfter s job) := inferInstanceAs (Decidable (_ < _))

/-- Results about one image are written while their claims are not overdue. -/
def punctual (reclaimAfter image : Nat) : Guard State Input Output := fun _ s input =>
  ∀ job ∈ input.written s, job.image = image → ¬ overdue reclaimAfter s job

instance (reclaimAfter image past s input) : Decidable (punctual reclaimAfter image past s input) :=
  inferInstanceAs (Decidable (∀ job ∈ _, _ → _))

def rewritten (images : Nat → Option Image) (jobs : List Job) (status : ProcessStatus) (image : Nat) : Option Image :=
  (images image).map fun row => if image ∈ jobs.map (·.image) then { row with status } else row

/-! ## What a step does -/

inductive Effect (reclaimAfter : Nat) (s : State) (input : Input) : Output × State → Prop
  | moved {after : State} (images : after.images = s.images) (clock : s.clock ≤ after.clock)
      (tickets : after.tickets = s.tickets) (live : after.live.Subperm s.live) : Effect reclaimAfter s input (silent, after)
  | claimed {jobs : List Job} {after : State} (apart : (jobs.map (·.image)).Nodup)
      (free : ∀ job ∈ jobs, s.isPending job.image ∨ s.isStranded reclaimAfter job.image)
      (issued : ∀ job ∈ jobs, s.tickets ≤ job.ticket ∧ job.ticket < after.tickets)
      (now : ∀ job ∈ jobs, job.claimedAt = s.clock) (clock : after.clock = s.clock) (tickets : s.tickets ≤ after.tickets)
      (images : ∀ image, after.images image = (s.images image).map fun row =>
        if image ∈ jobs.map (·.image) then ⟨.processing, row.attempt + 1, some s.clock⟩ else row)
      (live : after.live.Perm (s.live ++ jobs)) : Effect reclaimAfter s input (⟨jobs, []⟩, after)
  | wrote {after : State} (status : ProcessStatus) (ends : status ≠ .processing) (clock : after.clock = s.clock)
      (tickets : after.tickets = s.tickets)
      (images : ∀ image, after.images image = rewritten s.images (input.written s) status image)
      (live : (after.live ++ input.written s).Perm s.live) :
      Effect reclaimAfter s input (⟨[], s.changes (input.written s) status⟩, after)

section Steps
variable {reclaimAfter : Nat} {s : State}

theorem live_of_writes_sublist {after : State} (jobs : after.jobs.Sublist s.jobs) (writes : after.writes.Sublist s.writes) :
    after.live.Subperm s.live := by
  apply List.Sublist.subperm
  exact jobs.append (writes.flatMap _)

theorem nextJobs_nodup (permits : Nat) (pending stranded : List Nat) :
    (s.nextJobs reclaimAfter permits pending stranded).Nodup := by
  apply List.Nodup.sublist (List.take_sublist _ _)
  apply List.Nodup.append
  · exact ((List.nodup_dedup _).filter _).sublist (List.take_sublist _ _)
  · exact ((List.nodup_dedup _).filter _).sublist (List.take_sublist _ _)
  · intro image first second
    have isPending := (List.mem_filter.mp (List.mem_of_mem_take first)).2
    have isStranded := (List.mem_filter.mp (List.mem_of_mem_take second)).2
    rw [State.isPending] at isPending
    rw [State.isStranded] at isStranded
    cases found : s.images image with
    | none => simp [found] at isPending
    | some row => simp_all

theorem nextJobs_free (permits : Nat) (pending stranded : List Nat) {image : Nat}
    (member : image ∈ s.nextJobs reclaimAfter permits pending stranded) :
    s.isPending image ∨ s.isStranded reclaimAfter image := by
  rcases List.mem_append.mp (List.mem_of_mem_take member) with found | found
  · exact .inl (List.mem_filter.mp (List.mem_of_mem_take found)).2
  · exact .inr (List.mem_filter.mp (List.mem_of_mem_take found)).2

theorem fetchBatch_effect (input : Input) (worker permits : Nat) (pending stranded : List Nat) :
    Effect reclaimAfter s input (s.fetchBatch reclaimAfter worker permits pending stranded) := by
  have images : ((s.nextJobs reclaimAfter permits pending stranded).zipIdx.map
      fun found => (⟨worker, found.1, s.tickets + found.2, s.clock⟩ : Job)).map (·.image) =
      s.nextJobs reclaimAfter permits pending stranded := by
    rw [List.map_map]
    exact List.zipIdx_map_fst 0 _
  apply Effect.claimed
  · rw [images]
    exact nextJobs_nodup permits pending stranded
  · intro job member
    apply nextJobs_free permits pending stranded
    rw [← images]
    exact List.mem_map_of_mem member
  · intro job member
    obtain ⟨found, listed, rfl⟩ := List.mem_map.mp member
    have inRange := List.snd_lt_of_mem_zipIdx listed
    exact ⟨Nat.le_add_right _ _, Nat.add_lt_add_left inRange _⟩
  · intro job member
    obtain ⟨found, listed, rfl⟩ := List.mem_map.mp member
    rfl
  · rfl
  · exact Nat.le_add_right _ _
  · intro image
    rw [images]
    rfl
  · unfold State.live
    rw [List.append_assoc, List.append_assoc]
    exact List.Perm.append_left _ List.perm_append_comm

theorem record_live (worker : Nat) (batch failed : List Job) : (s.record worker batch failed).live.Perm s.live := by
  have split := List.filter_append_perm (fun job : Job => decide (job.worker = worker ∧ job ∈ batch)) s.jobs
  have halves := List.filter_append_perm (fun job : Job => decide (job ∉ failed))
    (s.jobs.filter fun job => job.worker = worker ∧ job ∈ batch)
  rw [List.perm_iff_count]
  intro job
  replace split := split.count_eq job
  replace halves := halves.count_eq job
  rw [State.live, State.live, State.record]
  simp only [List.flatMap_append, List.flatMap_cons, List.flatMap_nil, List.append_nil, List.count_append,
    decide_not, Bool.not_not] at split halves ⊢
  omega

theorem writes_cut {write : Nat} {pending : Write} (found : s.writes[write]? = some pending) :
    s.writes = s.writes.take write ++ pending :: s.writes.drop (write + 1) := by
  obtain ⟨inRange, rfl⟩ := List.getElem?_eq_some_iff.mp found
  rw [List.getElem_cons_drop, List.take_append_drop]

theorem live_count {write : Nat} {pending : Write} (found : s.writes[write]? = some pending) (job : Job) :
    s.live.count job = s.jobs.count job +
      ((s.writes.take write).flatMap fun write => write.completed ++ write.failed).count job +
      (pending.completed.count job + pending.failed.count job) +
      ((s.writes.drop (write + 1)).flatMap fun write => write.completed ++ write.failed).count job := by
  have cut := writes_cut found
  rw [State.live]
  conv => lhs; rw [cut]
  simp only [List.flatMap_append, List.flatMap_cons, List.count_append]
  omega

theorem complete_effect (write : Nat) : Effect reclaimAfter s (.complete write) (s.complete write) := by
  rw [State.complete]
  cases found : s.writes[write]? with
  | none => exact .moved rfl (Nat.le_refl _) rfl (List.Perm.refl _).subperm
  | some pending =>
    have written : (Input.complete write).written s = pending.completed := by
      rw [Input.written, found]
      rfl
    obtain ⟨inRange, same⟩ := List.getElem?_eq_some_iff.mp found
    dsimp only
    rw [← written]
    apply Effect.wrote .completed
    · simp
    · rfl
    · rfl
    · intro image
      rfl
    · rw [List.perm_iff_count]
      intro job
      rw [written, List.count_append, live_count found job, State.live, List.set_eq_take_append_cons_drop, if_pos inRange]
      simp only [State.update, List.flatMap_append, List.flatMap_cons, List.count_append, List.nil_append]
      omega

theorem reset_effect (write : Nat) : Effect reclaimAfter s (.reset write) (s.reset write) := by
  rw [State.reset]
  cases found : s.writes[write]? with
  | none => exact .moved rfl (Nat.le_refl _) rfl (List.Perm.refl _).subperm
  | some pending =>
    by_cases finished : pending.completed = []
    · have written : (Input.reset write).written s = pending.failed := by
        rw [Input.written, found]
        exact if_pos finished
      dsimp only
      rw [← written, if_neg (not_not_intro finished)]
      apply Effect.wrote .pending
      · simp
      · rfl
      · rfl
      · intro image
        rfl
      · rw [List.perm_iff_count]
        intro job
        rw [written, List.count_append, live_count found job, State.live, List.eraseIdx_eq_take_drop_succ, finished]
        simp only [State.update, List.flatMap_append, List.count_append, List.count_nil]
        omega
    · dsimp only
      rw [if_pos finished]
      exact .moved rfl (Nat.le_refl _) rfl (List.Perm.refl _).subperm

theorem step_effect (input : Input) : Effect reclaimAfter s input (step reclaimAfter s input) := by
  cases input with
  | tick elapsed => exact .moved rfl (Nat.le_add_right _ _) rfl (List.Perm.refl _).subperm
  | claim worker permits pending stranded => exact fetchBatch_effect _ worker permits pending stranded
  | record worker batch failed => exact .moved rfl (Nat.le_refl _) rfl (record_live worker batch failed).subperm
  | complete write => exact complete_effect write
  | reset write => exact reset_effect write
  | abandon write =>
    exact .moved rfl (Nat.le_refl _) rfl (live_of_writes_sublist (List.Sublist.refl _) (List.eraseIdx_sublist _ _))
  | crash worker =>
    exact .moved rfl (Nat.le_refl _) rfl (live_of_writes_sublist List.filter_sublist List.filter_sublist)

end Steps

/-! ## Claims are held -/

def Held (past : Past) (s : State) (job : Job) : Prop :=
  holder past job.image = some job ∧
    ∃ row, s.images job.image = some row ∧ row.status = .processing ∧ row.claimedAt = some job.claimedAt

structure Owned (reclaimAfter image : Nat) (past : Past) (s : State) : Prop where
  issued : ∀ job ∈ s.live, job.ticket < s.tickets
  distinct : s.live.Nodup
  held : ∀ job ∈ s.live, job.image = image → ¬ overdue reclaimAfter s job → Held past s job

section Holding
variable {reclaimAfter image : Nat} {past : Past} {s after : State} {input : Input} {output : Output}

theorem holder_of_claimed {job : Job} (apart : (output.claimed.map (·.image)).Nodup) (member : job ∈ output.claimed) :
    holder (⟨s, input, output, after⟩ :: past) job.image = some job := by
  have first : output.claimed.find? (·.image = job.image) = some job := by
    cases found : output.claimed.find? (·.image = job.image) with
    | none =>
      have differs := List.find?_eq_none.mp found job member
      simp at differs
    | some other =>
      have same : other.image = job.image := by simpa using List.find?_some found
      rw [List.inj_on_of_nodup_map apart (List.mem_of_find?_eq_some found) member same]
  rw [holder, List.findSome?_cons, first]

theorem holder_of_unclaimed {image : Nat} (absent : image ∉ output.claimed.map (·.image)) :
    holder (⟨s, input, output, after⟩ :: past) image = holder past image := by
  have none : output.claimed.find? (·.image = image) = none := by
    rw [List.find?_eq_none]
    intro job member
    simp only [decide_eq_true_eq]
    intro same
    exact absent (List.mem_map.mpr ⟨job, member, same⟩)
  rw [holder, List.findSome?_cons, none]
  rfl

/-- A row held by a claim that is not overdue is free to nobody. -/
theorem Held.not_free {job : Job} (held : Held past s job) (current : ¬ overdue reclaimAfter s job) :
    ¬ (s.isPending job.image ∨ s.isStranded reclaimAfter job.image) := by
  obtain ⟨_, row, found, processing, claimedAt⟩ := held
  intro free
  rcases free with free | free
  · rw [State.isPending, found] at free
    simp [processing] at free
  · rw [State.isStranded, found] at free
    simp only [Option.any_some, Bool.and_eq_true, claimedAt, decide_eq_true_eq] at free
    exact current free.2

theorem Owned.moved (owned : Owned reclaimAfter image past s) (images : after.images = s.images)
    (clock : s.clock ≤ after.clock) (tickets : after.tickets = s.tickets) (live : after.live.Subperm s.live) :
    Owned reclaimAfter image (⟨s, input, silent, after⟩ :: past) after where
  issued job member := by
    rw [tickets]
    exact owned.issued job (live.subset member)
  distinct := by
    obtain ⟨kept, same, sublist⟩ := live
    exact same.nodup_iff.mp (owned.distinct.sublist sublist)
  held job member about current := by
    have earlier : ¬ overdue reclaimAfter s job := by
      rw [overdue] at current ⊢
      omega
    have held := owned.held job (live.subset member) about earlier
    rw [Held, images, holder_of_unclaimed List.not_mem_nil]
    exact held

theorem Owned.claimed {jobs : List Job} (owned : Owned reclaimAfter image past s)
    (apart : (jobs.map (·.image)).Nodup)
    (free : ∀ job ∈ jobs, s.isPending job.image ∨ s.isStranded reclaimAfter job.image)
    (issued : ∀ job ∈ jobs, s.tickets ≤ job.ticket ∧ job.ticket < after.tickets)
    (now : ∀ job ∈ jobs, job.claimedAt = s.clock) (clock : after.clock = s.clock) (tickets : s.tickets ≤ after.tickets)
    (images : ∀ image, after.images image = (s.images image).map fun row =>
      if image ∈ jobs.map (·.image) then ⟨.processing, row.attempt + 1, some s.clock⟩ else row)
    (live : after.live.Perm (s.live ++ jobs)) :
    Owned reclaimAfter image (⟨s, input, ⟨jobs, []⟩, after⟩ :: past) after where
  issued job member := by
    rcases List.mem_append.mp (live.mem_iff.mp member) with older | newer
    · exact Nat.lt_of_lt_of_le (owned.issued job older) tickets
    · exact (issued job newer).2
  distinct := by
    apply live.nodup_iff.mpr
    apply List.Nodup.append owned.distinct (List.Nodup.of_map _ apart)
    intro job older newer
    have below := owned.issued job older
    have above := (issued job newer).1
    omega
  held job member about current := by
    rcases List.mem_append.mp (live.mem_iff.mp member) with older | newer
    · have earlier : ¬ overdue reclaimAfter s job := by
        rw [overdue] at current ⊢
        rwa [clock] at current
      have held := owned.held job older about earlier
      have absent : job.image ∉ jobs.map (·.image) := by
        intro listed
        obtain ⟨other, newer, same⟩ := List.mem_map.mp listed
        apply held.not_free earlier
        rw [← same]
        exact free other newer
      obtain ⟨holds, row, found, facts⟩ := held
      refine ⟨(holder_of_unclaimed absent).trans holds, row, ?_, facts⟩
      rw [images, found, Option.map_some, if_neg absent]
    · refine ⟨holder_of_claimed apart newer, ?_⟩
      have listed : job.image ∈ jobs.map (·.image) := List.mem_map_of_mem newer
      cases found : s.images job.image with
      | none =>
        have nobody := free job newer
        simp [State.isPending, State.isStranded, found] at nobody
      | some row =>
        refine ⟨⟨.processing, row.attempt + 1, some s.clock⟩, ?_, rfl, ?_⟩
        · rw [images, found, Option.map_some, if_pos listed]
        · rw [now job newer]

theorem Owned.wrote {jobs : List Job} {status : ProcessStatus} {changed : List Change}
    (owned : Owned reclaimAfter image past s)
    (onTime : ∀ job ∈ jobs, job.image = image → ¬ overdue reclaimAfter s job)
    (clock : after.clock = s.clock) (tickets : after.tickets = s.tickets)
    (images : ∀ image, after.images image = rewritten s.images jobs status image)
    (live : (after.live ++ jobs).Perm s.live) :
    Owned reclaimAfter image (⟨s, input, ⟨[], changed⟩, after⟩ :: past) after := by
  have distinct : (after.live ++ jobs).Nodup := live.nodup_iff.mpr owned.distinct
  have older : ∀ job ∈ after.live, job ∈ s.live := fun job member => live.mem_iff.mp (List.mem_append_left _ member)
  refine ⟨?_, (List.nodup_append.mp distinct).1, ?_⟩
  · intro job member
    rw [tickets]
    exact owned.issued job (older job member)
  · intro job member about current
    have earlier : ¬ overdue reclaimAfter s job := by
      rw [overdue] at current ⊢
      rwa [clock] at current
    obtain ⟨holds, row, found, facts⟩ := owned.held job (older job member) about earlier
    -- two claims of one image that both hold it would be the same one
    have absent : job.image ∉ jobs.map (·.image) := by
      intro listed
      obtain ⟨other, written, same⟩ := List.mem_map.mp listed
      have otherHolds := (owned.held other (live.mem_iff.mp (List.mem_append_right _ written)) (same.trans about)
        (onTime other written (same.trans about))).1
      rw [same, holds, Option.some.injEq] at otherHolds
      subst otherHolds
      exact List.disjoint_of_nodup_append distinct member written
    refine ⟨(holder_of_unclaimed List.not_mem_nil).trans holds, row, ?_, facts⟩
    rw [images, rewritten, found, Option.map_some, if_neg absent]

theorem Owned.effect {result : Output × State} (owned : Owned reclaimAfter image past s)
    (onTime : punctual reclaimAfter image past s input) (effect : Effect reclaimAfter s input result) :
    Owned reclaimAfter image (⟨s, input, result.1, result.2⟩ :: past) result.2 := by
  cases effect with
  | moved images clock tickets live => exact owned.moved images clock tickets live
  | claimed apart free issued now clock tickets images live =>
    exact owned.claimed apart free issued now clock tickets images live
  | wrote status ends clock tickets images live => exact owned.wrote onTime clock tickets images live

/-! ## What a write changes -/

theorem changed_while_held {result : Output × State} (owned : Owned reclaimAfter image past s)
    (onTime : punctual reclaimAfter image past s input) (effect : Effect reclaimAfter s input result)
    {change : Change} (member : change ∈ result.1.changed) (about : change.job.image = image) :
    change.before = .processing ∧ holder past image = some change.job := by
  cases effect with
  | moved images clock tickets live => simp [silent] at member
  | claimed apart free issued now clock tickets images live => simp at member
  | wrote status ends clock tickets images live =>
    obtain ⟨job, written, listed⟩ := List.mem_filterMap.mp member
    obtain ⟨row, found, rfl⟩ := Option.map_eq_some_iff.mp listed
    have current := onTime job written about
    have inHand : job ∈ s.live := live.mem_iff.mp (List.mem_append_right _ written)
    obtain ⟨holds, held, same, processing, _⟩ := owned.held job inHand about current
    rw [found, Option.some.injEq] at same
    subst same
    rw [← about]
    exact ⟨processing, holds⟩

def Completed (s : State) (image : Nat) : Prop := ∃ row, s.images image = some row ∧ row.status = .completed

theorem completed_kept {result : Output × State} (owned : Owned reclaimAfter image past s)
    (onTime : punctual reclaimAfter image past s input) (effect : Effect reclaimAfter s input result)
    (completed : Completed s image) : Completed result.2 image := by
  obtain ⟨row, found, done⟩ := completed
  cases effect with
  | moved images clock tickets live => exact ⟨row, (congrFun images image).trans found, done⟩
  | claimed apart free issued now clock tickets images live =>
    refine ⟨row, ?_, done⟩
    rw [images, found, Option.map_some, if_neg]
    intro listed
    obtain ⟨job, newer, same⟩ := List.mem_map.mp listed
    have nobody := free job newer
    rw [same] at nobody
    simp [State.isPending, State.isStranded, found, done] at nobody
  | wrote status ends clock tickets images live =>
    refine ⟨row, ?_, done⟩
    rw [images, rewritten, found, Option.map_some, if_neg]
    intro listed
    obtain ⟨job, written, same⟩ := List.mem_map.mp listed
    have inHand : job ∈ s.live := live.mem_iff.mp (List.mem_append_right _ written)
    obtain ⟨_, held, there, processing, _⟩ := owned.held job inHand same (onTime job written same)
    rw [same, found, Option.some.injEq] at there
    subst there
    rw [done] at processing
    cases processing

end Holding

/-! ## Runs -/

section Runs
variable {reclaimAfter image : Nat} {start : State}

theorem owned_of_run {past : Past} {state : State} (idle : start.live = [])
    (run : (machine reclaimAfter start).Run (punctual reclaimAfter image) start past state) :
    Owned reclaimAfter image past state := by
  apply run.invariant (Owned reclaimAfter image)
  · refine ⟨?_, ?_, ?_⟩ <;> simp [idle]
  · intro past state input _ onTime owned
    exact owned.effect onTime (step_effect input)

theorem completed_of_run {late early : Past} {event : Event State Input Output} {state : State} (idle : start.live = [])
    (run : (machine reclaimAfter start).Run (punctual reclaimAfter image) start (late ++ event :: early) state)
    (completed : Completed event.before image) : Completed state image := by
  have kept {later earlier : Past} {next : Event State Input Output} {state : State}
      (run : (machine reclaimAfter start).Run (punctual reclaimAfter image) start (later ++ next :: earlier) state)
      (completed : Completed next.before image) : Completed next.after image := by
    obtain ⟨before, onTime⟩ := run.cut
    rw [run.event_of_mem (List.mem_append_right _ List.mem_cons_self)]
    exact completed_kept (owned_of_run idle before) onTime (step_effect next.input) completed
  apply run.since (Completed · image) (kept run completed)
  intro later next earlier split
  rw [split, List.append_assoc] at run
  exact kept run

/-- While the results about an image are written within `reclaim_after` of their
claims, its status changes only under its most recent claim, out of `processing`,
and once completed it stays completed. -/
theorem claims_undisturbed {late early : Past} {event : Event State Input Output} {state : State}
    (idle : start.jobs = [] ∧ start.writes = [])
    (run : (machine reclaimAfter start).Run (punctual reclaimAfter image) start (late ++ event :: early) state) :
    (∀ change ∈ event.output.changed, change.job.image = image →
      change.before = .processing ∧ holder early image = some change.job) ∧
    (Completed event.before image → Completed state image) := by
  have none : start.live = [] := by
    rw [State.live, idle.1, idle.2]
    rfl
  refine ⟨?_, completed_of_run none run⟩
  intro change member about
  obtain ⟨before, onTime⟩ := run.cut
  rw [run.event_of_mem (List.mem_append_right _ List.mem_cons_self)] at member
  exact changed_while_held (owned_of_run none before) onTime (step_effect event.input) member about

end Runs

section Example
open Machine

def lone : State := ⟨0, fun image => if image = 7 then some ⟨.pending, 0, none⟩ else none, 0, [], []⟩

def firstClaim : Job := ⟨1, 7, 0, 0⟩

def retried : List Input := [
  .claim 1 8 [7] [],
  .tick 40,
  .record 1 [firstClaim] [firstClaim],
  .reset 0,
  .claim 2 8 [7] [],
  .tick 60,
  .record 2 [⟨2, 7, 1, 40⟩] []]

theorem claims_undisturbed_retried :
    let early := (machine 1800 lone).play ([], lone) retried
    let event := (machine 1800 lone).event early.2 (.complete 0)
    event.output.changed = [⟨⟨2, 7, 1, 40⟩, .processing, .completed⟩] ∧
    (∀ change ∈ event.output.changed, change.job.image = 7 →
      change.before = .processing ∧ holder early.1 7 = some change.job) ∧
    (Completed event.before 7 → Completed event.after 7) := by
  refine ⟨by decide, ?_⟩
  have run : (machine 1800 lone).Run (punctual 1800 7) lone _ _ := Run.start.play retried (by decide)
  have onTime : punctual 1800 7 ((machine 1800 lone).play ([], lone) retried).1
      ((machine 1800 lone).play ([], lone) retried).2 (.complete 0) := by decide
  exact @claims_undisturbed _ _ _ [] _ _ _ ⟨rfl, rfl⟩ (run.step onTime)

/-- The first worker fails after the second has taken the image over and
completed it. -/
def overtaken : List Input := [
  .claim 1 8 [7] [],
  .tick 1801,
  .claim 2 8 [] [7],
  .record 2 [⟨2, 7, 1, 1801⟩] [],
  .complete 0,
  .record 1 [firstClaim] [firstClaim]]

theorem late_failure_undoes : ∃ early event state,
    (machine 1800 lone).Run (fun _ _ _ => True) lone (event :: early) state ∧
    ⟨firstClaim, .completed, .pending⟩ ∈ event.output.changed ∧
    (holder early 7).map (·.worker) = some 2 ∧ (state.images 7).map (·.status) = some .pending := by
  have run : (machine 1800 lone).Run (fun _ _ _ => True) lone _ _ := Run.start.play overtaken (by decide)
  exact ⟨_, _, _, @Run.step _ _ _ _ _ _ _ _ (.reset 1) run trivial, by decide, by decide, by decide⟩

end Example
end LetsEmbed.Embed
