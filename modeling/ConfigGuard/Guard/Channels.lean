import ConfigGuard.Guard.Bookkeeping

/-!
# Where answers and cached decisions come from

The jobs and completions on their way belong to prompts of the coordinator, and
everything in the prompt cache goes back to an answer of the worker or to the
default of an event.
-/

namespace ConfigGuard
open OsPath Transition AssocList

namespace GuardState

/-- The prompts of the coordinator, the one being recorded included. -/
def prompts (s : GuardState) : List (PromptId × PendingPrompt) :=
  s.main.recorded.toList ++ s.coordinator.pending.entries.map fun entry => (entry.1, entry.2)

theorem mem_prompts {s : GuardState} {id : PromptId} {prompt : PendingPrompt} :
    (id, prompt) ∈ s.prompts ↔
      s.main.recorded = some (id, prompt) ∨ s.coordinator.pending.lookup id = some prompt := by
  have hentries : (id, prompt) ∈ s.coordinator.pending.entries.map (fun entry => (entry.1, entry.2)) ↔
      s.coordinator.pending.lookup id = some prompt := by
    rw [← Option.mem_def, AList.mem_lookup_iff, List.mem_map]
    constructor
    · rintro ⟨⟨id', prompt'⟩, hmem, heq⟩
      obtain ⟨rfl, rfl⟩ := Prod.mk.inj heq
      exact hmem
    · intro hmem
      exact ⟨⟨id, prompt⟩, hmem, rfl⟩
  rw [prompts, List.mem_append, hentries, Option.mem_toList]

end GuardState

/-- `job` was sent for the prompt `prompt`. -/
structure SentFor (job : PromptJob) (prompt : PendingPrompt) : Prop where
  key : prompt.key = job.key
  authorization : prompt.authorization = job.authorization

/-- The job channel, the worker and the completion channel carry the
coordinator's prompts. -/
structure Channels (s : GuardState) : Prop where
  jobs : ∀ job, job ∈ s.jobs ∨ s.worker = .asking job →
    ∃ prompt, (job.id, prompt) ∈ s.prompts ∧ SentFor job prompt
  completions : ∀ completion ∈ s.completions, ∃ job prompt,
    .answered job completion.outcome ∈ s.world.trace ∧ job.id = completion.id ∧
      (completion.id, prompt) ∈ s.prompts ∧ SentFor job prompt

/-- Steps that send and answer no job. -/
theorem Channels.advance {s t : GuardState} (hs : Channels s)
    (hjobs : ∀ job, job ∈ t.jobs ∨ t.worker = .asking job → job ∈ s.jobs ∨ s.worker = .asking job)
    (hcompletions : t.completions ⊆ s.completions) (htrace : s.world.trace ⊆ t.world.trace)
    (hprompts : ∀ id prompt, (id, prompt) ∈ s.prompts → id ∈ t.inFlight →
      ∃ prompt', (id, prompt') ∈ t.prompts ∧ prompt'.key = prompt.key ∧
        prompt'.authorization = prompt.authorization) : Channels t := by
  constructor
  · intro job hjob
    obtain ⟨prompt, hprompt, hsent⟩ := hs.jobs job (hjobs job hjob)
    have hmem : job.id ∈ t.inFlight := by
      rcases hjob with hjob | hjob
      · exact List.mem_append_left _ (List.mem_append_left _ (List.mem_map_of_mem hjob))
      · simp [GuardState.inFlight, hjob, WorkerPc.asked]
    obtain ⟨prompt', hprompt', hkey, hauthorization⟩ := hprompts _ _ hprompt hmem
    exact ⟨prompt', hprompt', hkey.trans hsent.key, hauthorization.trans hsent.authorization⟩
  · intro completion hcompletion
    obtain ⟨job, prompt, hanswered, hid, hprompt, hsent⟩ :=
      hs.completions completion (hcompletions hcompletion)
    have hmem : completion.id ∈ t.inFlight :=
      List.mem_append_right _ (List.mem_map_of_mem hcompletion)
    obtain ⟨prompt', hprompt', hkey, hauthorization⟩ := hprompts _ _ hprompt hmem
    exact ⟨job, prompt', htrace hanswered, hid, hprompt', hkey.trans hsent.key,
      hauthorization.trans hsent.authorization⟩

theorem Channels.initial : Channels .initial := by
  refine ⟨?_, nofun⟩
  rintro job (hjob | hjob) <;> cases hjob

/-- Steps that leave the maps alone keep the prompts. -/
theorem prompts_same {s t : GuardState} (hpending : t.coordinator.pending = s.coordinator.pending)
    (hrecorded : t.main.recorded = s.main.recorded) : t.prompts = s.prompts := by
  rw [GuardState.prompts, GuardState.prompts, hpending, hrecorded]

theorem Channels.same {s t : GuardState} (hs : Channels s)
    (hpending : t.coordinator.pending = s.coordinator.pending)
    (hrecorded : t.main.recorded = s.main.recorded)
    (hjobs : ∀ job, job ∈ t.jobs ∨ t.worker = .asking job → job ∈ s.jobs ∨ s.worker = .asking job)
    (hcompletions : t.completions ⊆ s.completions) (htrace : s.world.trace ⊆ t.world.trace) :
    Channels t := by
  refine hs.advance hjobs hcompletions htrace ?_
  intro id prompt hprompt _
  rw [prompts_same hpending hrecorded]
  exact ⟨prompt, hprompt, rfl, rfl⟩

/-- From `w` to `w'` no event is handed over and no job is answered. -/
structure Quiet (w w' : World) : Prop where
  handed : w'.handed = w.handed
  subset : w.trace ⊆ w'.trace
  answers : ∀ job outcome, .answered job outcome ∈ w'.trace → .answered job outcome ∈ w.trace

theorem Quiet.refl (w : World) : Quiet w w := ⟨rfl, List.Subset.refl _, fun _ _ h => h⟩

theorem Quiet.trans {w w' w'' : World} (h : Quiet w w') (h' : Quiet w' w'') : Quiet w w'' :=
  ⟨h'.handed.trans h.handed, List.Subset.trans h.subset h'.subset,
    fun job outcome hmem => h.answers job outcome (h'.answers job outcome hmem)⟩

theorem Quiet.of_append {w w' : World} {more : List Observation} (hhanded : w'.handed = w.handed)
    (htrace : w'.trace = w.trace ++ more) (hmore : ∀ job outcome, .answered job outcome ∉ more) :
    Quiet w w' := by
  refine ⟨hhanded, by rw [htrace]; exact List.subset_append_left _ _, ?_⟩
  intro job outcome hmem
  rw [htrace, List.mem_append] at hmem
  exact hmem.resolve_right (hmore job outcome)

theorem respondAndCloseEvent_quiet (io : IoResults) (w : World) (fd : Int) (mask : UInt64)
    (decision : Decision) : Quiet w (respondAndCloseEvent io w fd mask decision).2 := by
  refine .of_append (handed_respondAndCloseEvent _ _ _ _ _)
    (trace_respondAndCloseEvent _ _ _ _ _) ?_
  intro job outcome hmem
  unfold settlement at hmem
  split at hmem <;> simp at hmem

theorem respondToEvents_quiet (io : IoResults) (decisionFor : PendingEvent → Decision) (w : World)
    (events : List PendingEvent) : Quiet w (respondToEvents io decisionFor w events).2 := by
  induction events generalizing w with
  | nil => exact .refl w
  | cons event events ih => exact (respondAndCloseEvent_quiet io w _ _ _).trans (ih _)

theorem failPrompts_quiet (io : IoResults) (w : World) (prompts : List PendingPrompt) :
    Quiet w (PromptCoordinator.failPrompts io w prompts).2 := by
  induction prompts generalizing w with
  | nil => exact .refl w
  | cons prompt prompts ih =>
    have hfirst : Quiet w (respondWithDefaults io w prompt.events).2 :=
      respondToEvents_quiet io _ w _
    rw [PromptCoordinator.failPrompts]
    split
    · rename_i hresult
      rw [hresult] at hfirst
      exact hfirst
    · rename_i hresult
      rw [hresult] at hfirst
      exact hfirst.trans (ih _)

theorem Handled.quiet {g : Guard} {c c' : PromptCoordinator} {w w' : World} {event : GuardEvent}
    {handling : Handling} (h : Handled g c w event (handling, c', w')) : Quiet w w' := by
  cases h with
  | answered => exact respondAndCloseEvent_quiet _ _ _ _ _
  | unprepared => exact .of_append rfl (trace_closeDescriptor _ _ _) (by simp)
  | appended => exact .of_append rfl (World.trace_observe _ _) (by simp)
  | _ => exact .refl w

theorem Completed.quiet {c c' : PromptCoordinator} {io : IoResults} {w w' : World}
    {completion : PromptCompletion} {result : Except GuardError Unit}
    (h : Completed c io w completion (result, c', w')) : Quiet w w' := by
  cases h with
  | completed => exact respondToEvents_quiet _ _ _ _
  | _ => exact .refl w

section

variable {s t : GuardState} {id other : PromptId} {prompt p : PendingPrompt}

/-- While no prompt is being recorded, the prompts are those in the map. -/
theorem lookup_of_mem_prompts (hrecorded : s.main.recorded = none) (h : (other, p) ∈ s.prompts) :
    s.coordinator.pending.lookup other = some p := by
  rcases GuardState.mem_prompts.mp h with h | h
  · rw [hrecorded] at h
    cases h
  · exact h

/-- An event that joins a prompt changes neither its key nor its authorization. -/
theorem mem_prompts_push (hid : s.coordinator.pending.lookup id = some prompt)
    (event : PendingEvent)
    (hpending : t.coordinator.pending = s.coordinator.pending.insert id (prompt.push event))
    (hrecorded : s.main.recorded = none) (h : (other, p) ∈ s.prompts) :
    ∃ p', (other, p') ∈ t.prompts ∧ p'.key = p.key ∧ p'.authorization = p.authorization := by
  have hp := lookup_of_mem_prompts hrecorded h
  by_cases hother : other = id
  · subst hother
    obtain rfl := Option.some.inj (hid.symm.trans hp)
    refine ⟨prompt.push event, GuardState.mem_prompts.mpr (.inr ?_), rfl, rfl⟩
    rw [hpending, AList.lookup_insert]
  · refine ⟨p, GuardState.mem_prompts.mpr (.inr ?_), rfl, rfl⟩
    rw [hpending, AList.lookup_insert_ne hother]
    exact hp

/-- Recording moves a prompt into the map. -/
theorem mem_prompts_record (hs : Bookkept s) (hrecorded : s.main.recorded = some (id, prompt))
    (hcoordinator : t.coordinator = s.coordinator.recordPrompt id prompt)
    (h : (other, p) ∈ s.prompts) : (other, p) ∈ t.prompts := by
  have hnone : s.coordinator.pending.lookup id = none :=
    AList.lookup_eq_none.mpr (fun hmem => hs.recorded_notMem hrecorded (AList.mem_keys.mp hmem))
  refine GuardState.mem_prompts.mpr (.inr ?_)
  rw [hcoordinator, PromptCoordinator.pending_recordPrompt hnone]
  rcases GuardState.mem_prompts.mp h with h | h
  · rw [hrecorded] at h
    obtain ⟨rfl, rfl⟩ := Prod.mk.inj (Option.some.inj h)
    exact .inl ⟨rfl, rfl⟩
  · exact .inr h

/-- A completion takes only its own prompt out of the map. -/
theorem Completed.lookup_ne {c c' : PromptCoordinator} {io : IoResults} {w w' : World}
    {completion : PromptCompletion} {result : Except GuardError Unit}
    (h : Completed c io w completion (result, c', w')) (hne : other ≠ completion.id) :
    c'.pending.lookup other = c.pending.lookup other := by
  cases h with
  | unknown => rfl
  | mismatched => exact AList.lookup_erase_ne hne
  | completed => exact AList.lookup_erase_ne hne

end

/-- A job is sent and its prompt is being recorded. -/
theorem Channels.send {s t : GuardState} (hs : Channels s) {job : PromptJob}
    {prompt : PendingPrompt} (hrecorded : s.main.recorded = none)
    (hrecorded' : t.main.recorded = some (job.id, prompt)) (hsent : SentFor job prompt)
    (hpending : t.coordinator.pending = s.coordinator.pending) (hjobs : t.jobs = s.jobs ++ [job])
    (hworker : t.worker = s.worker) (hcompletions : t.completions = s.completions)
    (htrace : s.world.trace ⊆ t.world.trace) : Channels t := by
  have hold : ∀ id p, (id, p) ∈ s.prompts → (id, p) ∈ t.prompts := by
    intro id p hp
    refine GuardState.mem_prompts.mpr (.inr ?_)
    rw [hpending]
    exact lookup_of_mem_prompts hrecorded hp
  constructor
  · intro other hother
    by_cases hnew : other = job
    · subst hnew
      exact ⟨prompt, GuardState.mem_prompts.mpr (.inl hrecorded'), hsent⟩
    · have hother' : other ∈ s.jobs ∨ s.worker = .asking other := by
        simpa [hjobs, hworker, hnew] using hother
      obtain ⟨p, hp, hsent'⟩ := hs.jobs other hother'
      exact ⟨p, hold _ _ hp, hsent'⟩
  · intro completion hcompletion
    rw [hcompletions] at hcompletion
    obtain ⟨job', p, hanswered, hid, hp, hsent'⟩ := hs.completions completion hcompletion
    exact ⟨job', p, htrace hanswered, hid, hold _ _ hp, hsent'⟩

theorem channels_step {g : Guard} {s t : GuardState} {a : Move} (hgone : WorkerGone s)
    (hkept : s.main.live = true → Bookkept s) (hs : s.main.live = true → Channels s)
    (h : Stepped g s a t) (ht : t.main.live = true) : Channels t := by
  cases h with
  | control _ main bytes hlive hrecorded _ hrecorded' =>
    exact (hs hlive).same rfl (hrecorded'.trans hrecorded.symm) (fun _ => id)
      (List.Subset.refl _) (List.Subset.refl _)
  | handled event events tail result c w hmain _ hhandled =>
    have hlive : s.main.live = true := by rw [hmain]; rfl
    have hrecorded : s.main.recorded = none := by rw [hmain]; rfl
    have htrace : s.world.trace ⊆ w.trace := hhandled.quiet.subset
    have hsame : c.pending = s.coordinator.pending → Channels
        { s with coordinator := c, world := w, main := .afterEvent result events tail } := by
      intro hpending
      exact (hs hlive).same hpending ((afterEvent_recorded _ _ _).trans hrecorded.symm)
        (fun _ => id) (List.Subset.refl _) htrace
    cases hhandled with
    | rejected => exact hsame rfl
    | answered => exact hsame rfl
    | unprepared => exact hsame rfl
    | dangling => exact hsame rfl
    | exhausted => exact hsame rfl
    | appended spec key id prompt _ _ _ _ hid =>
      refine (hs hlive).advance (fun _ h => h) (List.Subset.refl _) htrace ?_
      intro other p hp _
      exact mem_prompts_push hid _ rfl hrecorded hp
  | sent event events tail job prompt c w hmain _ hhandled =>
    have hlive : s.main.live = true := by rw [hmain]; rfl
    have hrecorded : s.main.recorded = none := by rw [hmain]; rfl
    cases hhandled with
    | sending spec job _ _ _ _ hjob =>
      exact (hs hlive).send hrecorded rfl ⟨hjob.2.1.symm, hjob.2.2.1.symm⟩ rfl rfl rfl rfl
        (List.subset_append_left _ _)
  | unsent event events tail job prompt c w error hmain _ hhandled =>
    have htrace : s.world.trace ⊆ w.trace := hhandled.quiet.subset
    cases hhandled with
    | sending =>
      refine (hs (by rw [hmain]; rfl)).same rfl (by rw [hmain]; rfl) (fun _ => id)
        (List.Subset.refl _) ?_
      rw [trace_respondAndCloseEvent]
      exact List.Subset.trans htrace (List.subset_append_left _ _)
  | recorded id prompt events tail hmain =>
    refine (hs (by rw [hmain]; rfl)).advance (fun _ h => h) (List.Subset.refl _)
      (List.Subset.refl _) ?_
    intro other p hp _
    exact ⟨p, mem_prompts_record (hkept (by rw [hmain]; rfl)) (by rw [hmain]; rfl) rfl hp, rfl, rfl⟩
  | completed closed ready completion completions result c w main hmain hcompletions hcompleted
      hmain' =>
    have hlive : s.main.live = true := by rw [hmain]; rfl
    have hrecorded : s.main.recorded = none := by rw [hmain]; rfl
    have htrace : s.world.trace ⊆ w.trace := hcompleted.quiet.subset
    refine (hs hlive).advance (fun _ => id) (by rw [hcompletions]; exact List.subset_cons_self _ _)
      htrace ?_
    intro id prompt hprompt hflight
    -- the ids on their way are distinct, so the id of this completion is on its way no more
    have hne : id ≠ completion.id := by
      rintro rfl
      have hmiddle : s.inFlight.Perm
          (completion.id :: GuardState.inFlight { s with
            coordinator := c, world := w, completions := completions, main := main }) := by
        simp only [GuardState.inFlight, hcompletions, List.map_cons]
        exact List.perm_middle
      exact (List.nodup_cons.mp (hmiddle.nodup_iff.mp (hkept hlive).inFlight_nodup)).1 hflight
    refine ⟨prompt, GuardState.mem_prompts.mpr (.inr ?_), rfl, rfl⟩
    exact (hcompleted.lookup_ne hne).trans (lookup_of_mem_prompts hrecorded hprompt)
  | fellBack order error hmain =>
    -- nothing is on its way any more
    have hstopped : s.worker.isStopped = true := hgone.seen (by rw [hmain]; rfl)
    refine ⟨?_, ?_⟩
    · rintro job (hjob | hjob)
      · rw [hgone.jobs hstopped] at hjob
        cases hjob
      · rw [hjob] at hstopped
        cases hstopped
    · intro completion hcompletion
      rw [hgone.drained hmain] at hcompletion
      cases hcompletion
  | dropped => cases ht
  | joined => cases ht
  | received job jobs hworker hjobs =>
    refine (hs ht).same rfl rfl ?_ (List.Subset.refl _) (List.Subset.refl _)
    rintro other (hother | hother)
    · exact .inl (by rw [hjobs]; exact List.mem_cons_of_mem _ hother)
    · obtain rfl := WorkerPc.asking.inj hother
      exact .inl (by rw [hjobs]; exact List.mem_cons_self)
  | resolved job current ask outcome _ hworker =>
    constructor
    · rintro other (hother | hother)
      · exact (hs ht).jobs other (.inl hother)
      · cases hother
    · intro completion hcompletion
      rcases List.mem_append.mp hcompletion with hcompletion | hcompletion
      · obtain ⟨job', prompt, hanswered, hrest⟩ := (hs ht).completions completion hcompletion
        exact ⟨job', prompt, List.mem_append_left _ hanswered, hrest⟩
      · obtain rfl := List.mem_singleton.mp hcompletion
        obtain ⟨prompt, hprompt, hsent⟩ := (hs ht).jobs job (.inr hworker)
        exact ⟨job, prompt, List.mem_append_right _ List.mem_cons_self, rfl, hprompt, hsent⟩
  | notified hworker =>
    refine (hs ht).same rfl rfl ?_ (List.Subset.refl _) (List.Subset.refl _)
    rintro other (hother | hother)
    · exact .inl hother
    · cases hother
  | stopped _ panicked answers =>
    refine (hs ht).same rfl rfl ?_ (List.Subset.refl _) (List.subset_append_left _ _)
    rintro other (hother | hother) <;> cases hother

end ConfigGuard
