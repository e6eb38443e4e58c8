import KChat.Mls.Plain
import KChat.Mls.Synced

/-!
# Failed commits, in memory and in the store

Without other writers, the group in memory is the stored one from the opening of a batch on, as long
as no transaction of a commit fails after it changed the group in memory, with a text that does not
end the batch.

* `InSync`: the invariant of the second loop. `openGroup_inSync`, `prePass_keeps`: it holds at the
  start; `welcomeArm_inSync`, `reload_inSync`: steps that keep it.
* `UndoneQuietly`: the step that breaks it. `progressAfter_inSync`: the run lemma.
* **`inSync_iff`**: a batch is in sync after every commit iff it takes no such step.
-/

namespace KChat.Mls

open Lib OpenMls

variable {M : OpenMls} {env : Surroundings M}

/-- The group in memory, if there is one, has the id. -/
def HasId (id : String) (mlsGroup : Option M.Group) : Prop :=
  ∀ g, mlsGroup = some g → M.groupId g = id

theorem hasId_none (id : String) : HasId (M := M) id none := fun _ h => by cases h

theorem hasId_some {id : String} {g : M.Group} : HasId id (some g) ↔ M.groupId g = id :=
  ⟨fun h => h g rfl, fun h g' hg' => by cases hg'; exact h⟩

/-- The group in memory, if there is one, is the stored one. -/
def InSync (mlsGroup : Option M.Group) (s : Session M) : Prop :=
  ∀ g, mlsGroup = some g → Synced ⟨g, s⟩

theorem inSync_none (s : Session M) : InSync none s := fun _ h => by cases h

theorem inSync_some {g : M.Group} {s : Session M} : InSync (some g) s ↔ Synced ⟨g, s⟩ :=
  ⟨fun h => h g rfl, fun h g' hg' => by cases hg'; exact h⟩

theorem not_inSync {mlsGroup : Option M.Group} {g : M.Group} {s : Session M}
    (hg : mlsGroup = some g) (hs : M.stored s.store (M.groupId g) ≠ some g) :
    ¬ InSync mlsGroup s := fun h => hs (h g hg)

theorem InSync.of_store {mlsGroup : Option M.Group} {s s' : Session M} (h : InSync mlsGroup s)
    (hs : s'.store = s.store) : InSync mlsGroup s' := fun g hg => (h g hg).of_store hs

/-! ## The opening of a batch -/

section opening

variable (h : M.StoresGroups)
include h

theorem settlePending_inSync (args : AllMessagesOfGroupArgs) {existing : M.Group}
    (ownMemberId : String) (op : GroupPendingOperation) {s : Session M}
    (hid : M.groupId existing = args.groupId) (hs : Synced ⟨existing, s⟩) :
    wp (settlePending env args existing ownMemberId op) s
      (fun o s' => HasId args.groupId o ∧ InSync o s') fun _ _ => True := by
  have hchange : ∀ change : GroupAction M Unit, Faithful change →
      wp (changeGroup env args.groupId change) s
        (fun g s' => HasId args.groupId (some g) ∧ InSync (some g) s') fun _ _ => True := by
    intro change hfaithful
    refine wp_mono (changeGroup_spec h args.groupId hfaithful s) (fun g s' hg => ?_) fun _ _ h => h
    rw [hasId_some, inSync_some, Synced, hg.1]
    exact ⟨rfl, hg.2⟩
  apply wp_settlePending
  · exact fun o s s' hunmarked hs => ⟨hs.1, hs.2.of_store hunmarked.store⟩
  · exact hchange _ (.of_writes h.mergePendingCommit)
  · exact hchange _ (.of_writes h.clearPendingCommit)
  · exact wp_mono (wp_true _ s) (fun _ s' _ => ⟨hasId_none _, inSync_none s'⟩) fun _ _ h => h
  · exact ⟨hasId_some.mpr hid, inSync_some.mpr hs⟩

/-- **A batch is opened with its group, and in sync.** -/
theorem openGroup_inSync (args : AllMessagesOfGroupArgs) (s : Session M) :
    wp (openGroup env args) s
      (fun o s' => ∀ opening, o = some opening →
        HasId args.groupId opening.mlsGroup ∧ InSync opening.mlsGroup s') fun _ _ => True := by
  rw [openGroup, wp_bind, wp_attempt]
  refine wp_mono (load_spec env h args.groupId _ s) (fun existing s₁ h₁ => ?_) fun _ s₁ _ => ?_
  · obtain ⟨hg, hs₁⟩ := h₁
    dsimp only
    cases ownIdFromLeafNode existing with
    | none => exact fun opening ho => by cases ho
    | some ownMemberId =>
      dsimp only
      rw [wp_bind]
      refine wp_mono (useStatuses_store _ s₁) (fun _ s₂ h₂ => ?_) fun _ _ _ => trivial
      have hid : M.groupId existing = args.groupId := h.groupId hg
      have hsync : Synced ⟨existing, s₂⟩ := by
        rw [Synced, h₂.1, hs₁, hid]
        exact hg
      rw [wp_bind]
      refine wp_mono (settlePending_inSync h args ownMemberId _ hid hsync) (fun o s₃ h₃ => ?_)
        fun _ _ h => h
      rintro opening ho
      cases ho
      exact h₃
  · rintro opening ho
    cases ho
    exact ⟨hasId_none _, inSync_none s₁⟩

end opening

/-! ## The inspection of proposals -/

section prePass

variable (h : M.StoresGroups)
include h

/-- **The inspection leaves the group alone.** -/
theorem prePass_keeps (halone : ∀ t, env.others t = []) (messages : List MlsMessage)
    (p : Inspection M) (s : Session M) :
    (prePass env messages p s).1.mlsGroup = p.mlsGroup ∧
      M.stored (prePass env messages p s).2.store = M.stored s.store := by
  induction messages generalizing p s with
  | nil => exact ⟨rfl, rfl⟩
  | cons msg messages ih =>
    obtain ⟨hgroup, hstored⟩ := ih (p.step env msg s).1 (p.step env msg s).2
    obtain ⟨hgroup', hlook⟩ := Inspection.step_looked env h p msg s
    exact ⟨hgroup.trans hgroup', hstored.trans (hlook.stored_of_alone halone)⟩

end prePass

/-! ## The second loop -/

section loop

/-- The transaction of a commit failed after it changed the group in memory, and the batch goes on. -/
def UndoneQuietly (env : Surroundings M) (groupId : String) (msg : MlsMessage) (l : Progress M)
    (s : Session M) : Prop :=
  ∃ g text t, l.mlsGroup = some g ∧
    (transactionOn env (processOperationMessage env msg.blob)).run ⟨g, s⟩ = .error text t ∧
    t.self ≠ g ∧ ¬ isFatal (commitErrorLog groupId (.processMessage text))

variable (h : M.StoresGroups) (halone : ∀ t, env.others t = [])
include h halone

theorem welcomeArm_inSync (config : M.JoinConfig) (msg : MlsMessage) {l : Progress M}
    {s : Session M} (hs : InSync l.mlsGroup s) :
    InSync (Progress.welcomeArm env config msg l s).1.mlsGroup
      (Progress.welcomeArm env config msg l s).2 := by
  have hspec := processWelcome_spec env h msg.blob config s
  rw [Session.await_store_of_alone halone] at hspec
  cases hrun : (transaction env (processWelcome env msg.blob config)).run s with
  | ok g s' =>
    rw [Progress.welcomeArm_of_ok hrun]
    exact inSync_some.mpr ((wp_of_ok hrun).mp hspec)
  | error text s' =>
    rw [Progress.welcomeArm_of_error hrun]
    exact hs.of_store ((wp_of_error hrun).mp hspec)

theorem reload_inSync (id : String) (msg : MlsMessage) {l : Progress M} {s : Session M}
    (hs : InSync l.mlsGroup s) : InSync (Progress.reload env id msg l s).1.mlsGroup
      (Progress.reload env id msg l s).2 := by
  have hspec := load_spec env h id [msg.epoch] s
  rw [LoadSpec, Session.await_store_of_alone halone] at hspec
  by_cases hloaded : l.commitGroupLoaded
  · rw [Progress.reload_of_loaded hloaded]
    exact hs
  cases hrun : (loadGroupWithEpochMessageSecrets env id [msg.epoch]).run s with
  | ok g s' =>
    obtain ⟨hg, hs'⟩ := (wp_of_ok hrun).mp hspec
    rw [Progress.reload_of_ok hloaded hrun, inSync_some, Synced, h.groupId hg, hs']
    exact hg
  | error err s' =>
    rw [Progress.reload_of_error hloaded hrun, Progress.stopIfFatal_mlsGroup]
    exact hs.of_store ((wp_of_error hrun).mp hspec)

/-- **A commit is applied in memory and in the store, or in neither**, unless it is undone quietly. -/
theorem applyCommit_inSync (id : String) (msg : MlsMessage) {l : Progress M} {s : Session M}
    (hs : InSync l.mlsGroup s) (hquiet : ¬ UndoneQuietly env id msg l s)
    (herr : (Progress.applyCommit env id msg l s).1.error = none) :
    InSync (Progress.applyCommit env id msg l s).1.mlsGroup
      (Progress.applyCommit env id msg l s).2 := by
  cases hg : l.mlsGroup with
  | none =>
    rw [Progress.applyCommit_of_none hg, hg]
    exact inSync_none s
  | some g =>
    have hspec := transactionOn_spec env (processOperationMessage_faithful env h msg.blob) ⟨g, s⟩
    rw [Session.await_store_of_alone halone] at hspec
    cases hrun : (transactionOn env (processOperationMessage env msg.blob)).run ⟨g, s⟩ with
    | ok r t =>
      rw [Progress.applyCommit_of_ok hg hrun, inSync_some]
      exact ((wp_of_ok hrun).mp hspec).2
        ((hs g hg).of_store (Session.await_store_of_alone halone s))
    | error text t =>
      rw [Progress.applyCommit_of_error hg hrun] at herr ⊢
      have hself : t.self = g := by
        by_contra hne
        exact hquiet ⟨g, text, t, hg, hrun, hne, (Progress.stopIfFatal_error_eq_none.mp herr).1⟩
      rw [Progress.stopIfFatal_mlsGroup, hself, ← hg]
      exact hs.of_store ((wp_of_error hrun).mp hspec).2

/-- **A commit that is undone quietly** leaves a group in memory that is not stored. -/
theorem applyCommit_of_undone (id : String) (msg : MlsMessage) {l : Progress M} {s : Session M}
    (hs : InSync l.mlsGroup s) (hundone : UndoneQuietly env id msg l s) :
    (Progress.applyCommit env id msg l s).1.error = l.error ∧
      ¬ InSync (Progress.applyCommit env id msg l s).1.mlsGroup
        (Progress.applyCommit env id msg l s).2 := by
  obtain ⟨g, text, t, hg, hrun, hne, hfatal⟩ := hundone
  have hspec := transactionOn_spec env (processOperationMessage_faithful env h msg.blob) ⟨g, s⟩
  rw [Session.await_store_of_alone halone] at hspec
  obtain ⟨hid, hstore⟩ := (wp_of_error hrun).mp hspec
  rw [Progress.applyCommit_of_error hg hrun, Progress.stopIfFatal_of_not hfatal]
  refine ⟨rfl, fun hsync => hne ?_⟩
  have hmem := inSync_some.mp hsync
  have hold := hs g hg
  rw [Synced] at hmem hold
  rw [hstore, show M.groupId t.self = M.groupId g from hid, hold] at hmem
  exact (Option.some.inj hmem).symm

/-- The commit step that breaks the invariant. -/
def BreaksSync (env : Surroundings M) (groupId : String) (msg : MlsMessage) (l : Progress M)
    (s : Session M) : Prop :=
  msg.messageType = .commit ∧ l.mlsGroup.isSome ∧
    (Progress.reload env groupId msg l s).1.error = none ∧
    UndoneQuietly env groupId msg (Progress.reload env groupId msg l s).1
      (Progress.reload env groupId msg l s).2

/-- **Step lemma.** -/
theorem step_inSync (id : String) (config : M.JoinConfig) (latestEpoch : ℕ) (msg : MlsMessage)
    {l : Progress M} {s : Session M} (hs : InSync l.mlsGroup s)
    (hquiet : ¬ BreaksSync env id msg l s)
    (herr : (l.step env id config latestEpoch msg s).1.error = none) :
    InSync (l.step env id config latestEpoch msg s).1.mlsGroup
      (l.step env id config latestEpoch msg s).2 := by
  unfold Progress.step at herr ⊢
  cases htype : msg.messageType with
  | welcome => exact welcomeArm_inSync h halone config msg hs
  | proposal =>
    dsimp only
    rw [Progress.proposalArm_mlsGroup]
    exact hs
  | unknown => exact hs
  | commit =>
    rw [htype] at herr
    dsimp only at herr ⊢
    rcases Progress.commitArm_cases herr with ⟨-, harm⟩ | ⟨hsome, hreload, happly⟩
    · rw [harm, Progress.dropRemoved_mlsGroup]
      exact hs
    · rw [Progress.commitArm_of_continue hsome hreload happly, Progress.dropRemoved_mlsGroup]
      exact applyCommit_inSync h halone id msg (reload_inSync h halone id msg hs)
        (fun hundone => hquiet ⟨htype, hsome, hreload, hundone⟩) happly

/-- A step that breaks the invariant. -/
theorem step_of_breaksSync (id : String) (config : M.JoinConfig) (latestEpoch : ℕ)
    (msg : MlsMessage) {l : Progress M} {s : Session M} (hs : InSync l.mlsGroup s)
    (hbreaks : BreaksSync env id msg l s) :
    (l.step env id config latestEpoch msg s).1.error = none ∧
      ¬ InSync (l.step env id config latestEpoch msg s).1.mlsGroup
        (l.step env id config latestEpoch msg s).2 := by
  obtain ⟨htype, hsome, hreload, hundone⟩ := hbreaks
  obtain ⟨herr, hbroken⟩ :=
    applyCommit_of_undone h halone id msg (reload_inSync h halone id msg hs) hundone
  rw [hreload] at herr
  have hstep : l.step env id config latestEpoch msg s = Progress.commitArm env id msg l s := by
    unfold Progress.step
    rw [htype]
  rw [hstep, Progress.commitArm_of_continue hsome hreload herr, Progress.dropRemoved_error,
    Progress.dropRemoved_mlsGroup]
  exact ⟨herr, hbroken⟩

end loop

/-! ## Runs -/

section runs

variable (h : M.StoresGroups) (halone : ∀ t, env.others t = []) {config : M.JoinConfig}
  {args : AllMessagesOfGroupArgs} {s₀ s : Session M} {opening : Opening M}
  {messages : List MlsMessage} {msg : MlsMessage}
include h halone

variable (config) in
/-- The first loop leaves what was opened in sync. -/
theorem progressAfter_nil_inSync
    (hopen : (openGroup env args).run s₀ = .ok (some opening) s) :
    InSync (progressAfter env config args opening.mlsGroup s []).1.mlsGroup
      (progressAfter env config args opening.mlsGroup s []).2 := by
  obtain ⟨-, hopened⟩ := (wp_of_ok hopen).mp (openGroup_inSync h args s₀) opening rfl
  obtain ⟨hgroup, hstored⟩ := prePass_keeps h halone args.messages (.start opening.mlsGroup) s
  intro g hg
  rw [Synced]
  change M.stored (prePass env args.messages (.start opening.mlsGroup) s).2.store _ = _
  rw [hstored]
  refine hopened g ?_
  rw [← hg]
  exact hgroup.symm

/-- A message that breaks nothing. -/
theorem progressAfter_concat_inSync {mlsGroup : Option M.Group}
    (hs : InSync (progressAfter env config args mlsGroup s messages).1.mlsGroup
      (progressAfter env config args mlsGroup s messages).2)
    (hquiet : ¬ BreaksSync env args.groupId msg (progressAfter env config args mlsGroup s messages).1
      (progressAfter env config args mlsGroup s messages).2)
    (herr : (progressAfter env config args mlsGroup s (messages ++ [msg])).1.error = none) :
    InSync (progressAfter env config args mlsGroup s (messages ++ [msg])).1.mlsGroup
      (progressAfter env config args mlsGroup s (messages ++ [msg])).2 := by
  have hstep : progressAfter env config args mlsGroup s (messages ++ [msg]) = _ :=
    progressAfter_concat (progressAfter_error herr)
  rw [hstep] at herr ⊢
  exact step_inSync h halone args.groupId config _ msg hs hquiet herr

variable (config) in
/-- **Run lemma**: a batch is in sync as long as no commit is undone quietly. -/
theorem progressAfter_inSync (hopen : (openGroup env args).run s₀ = .ok (some opening) s)
    (hquiet : ∀ front x, front ++ [x] <+: messages →
      (progressAfter env config args opening.mlsGroup s front).1.error = none →
      ¬ BreaksSync env args.groupId x (progressAfter env config args opening.mlsGroup s front).1
        (progressAfter env config args opening.mlsGroup s front).2)
    (herr : (progressAfter env config args opening.mlsGroup s messages).1.error = none) :
    InSync (progressAfter env config args opening.mlsGroup s messages).1.mlsGroup
      (progressAfter env config args opening.mlsGroup s messages).2 := by
  induction messages using List.reverseRecOn with
  | nil => exact progressAfter_nil_inSync h halone config hopen
  | append_singleton messages msg ih =>
    have herr' := progressAfter_error herr
    refine progressAfter_concat_inSync h halone (ih ?_ herr') ?_ herr
    · exact fun front x hx => hquiet front x (hx.trans (List.prefix_append _ _))
    · exact hquiet messages msg (List.prefix_refl _) herr'

end runs

/-- **A batch is in sync after every commit it goes on from, iff no commit is undone quietly.** -/
theorem inSync_iff (M : OpenMls) (h : M.StoresGroups) (env : Surroundings M)
    (halone : ∀ t, env.others t = []) (config : M.JoinConfig) (args : AllMessagesOfGroupArgs)
    {s₀ s : Session M} {opening : Opening M}
    (hopen : (openGroup env args).run s₀ = .ok (some opening) s) :
    let after := progressAfter env config args opening.mlsGroup s
    (∀ front, front <+: args.messages → (∃ msg ∈ front, msg.messageType = .commit) →
      (after front).1.error = none → InSync (after front).1.mlsGroup (after front).2) ↔
    ∀ front msg, front ++ [msg] <+: args.messages → (after front).1.error = none →
      ¬ BreaksSync env args.groupId msg (after front).1 (after front).2 := by
  intro after
  constructor
  · intro hsync front msg hpre herr hbreaks
    have hfront : ∀ front, front <+: args.messages → (after front).1.error = none →
        InSync (after front).1.mlsGroup (after front).2 := by
      intro front
      induction front using List.reverseRecOn with
      | nil => exact fun _ _ => progressAfter_nil_inSync h halone config hopen
      | append_singleton front x ih =>
        intro hpre herr
        by_cases hx : x.messageType = .commit
        · exact hsync _ hpre ⟨x, by simp, hx⟩ herr
        · exact progressAfter_concat_inSync h halone
            (ih ((List.prefix_append _ _).trans hpre) (progressAfter_error herr))
            (fun hb => hx hb.1) herr
    have hstep := step_of_breaksSync h halone args.groupId config
      (prePass env args.messages (.start opening.mlsGroup) s).1.latestEpoch msg
      (hfront front ((List.prefix_append _ _).trans hpre) herr) hbreaks
    have hcommit := hbreaks.1
    rw [← progressAfter_concat herr] at hstep
    exact hstep.2 (hsync _ hpre ⟨msg, by simp, hcommit⟩ hstep.1)
  · intro hquiet front hpre _ herr
    exact progressAfter_inSync h halone config hopen
      (fun f x hf hferr => hquiet f x (hf.trans hpre) hferr) herr

/-! ### A full disk -/

/-- The disk is full when the transaction of the first commit is committed. -/
def diskFull : Surroundings plain where
  others _ := []
  fault t := if t = 10 then some "database or disk is full" else none

open Plain in
theorem openGroup_diskFull : (openGroup diskFull (batch [commitAt 1, commitAt 2])).run
    (sessionAt 1 [] []) = .ok (some { mlsGroup := some (groupAt 1), deleted := false })
      { sessionAt 1 [] [] with time := 4, seen := 1 } := rfl

open Plain in
/-- The first commit stays in memory, and the second is stored on top of it. -/
theorem not_inSync_diskFull :
    let after := progressAfter diskFull () (batch [commitAt 1, commitAt 2]) (some (groupAt 1))
      { sessionAt 1 [] [] with time := 4, seen := 1 }
    (openGroup diskFull (batch [commitAt 1, commitAt 2])).run (sessionAt 1 [] []) =
      .ok (some { mlsGroup := some (groupAt 1), deleted := false })
        { sessionAt 1 [] [] with time := 4, seen := 1 } ∧
    (after [commitAt 1]).1.error = none ∧
    ¬ InSync (after [commitAt 1]).1.mlsGroup (after [commitAt 1]).2 ∧
    (plain.stored (after [commitAt 1, commitAt 2]).2.store "g").map plain.epoch = some 3 := by
  exact ⟨openGroup_diskFull, by decide +kernel,
    not_inSync (g := groupAt 2) (by decide +kernel) (by decide +kernel), by decide +kernel⟩

open Plain in
theorem inSync_iff_diskFull :
    let after := progressAfter diskFull () (batch [commitAt 1, commitAt 2]) (some (groupAt 1))
      { sessionAt 1 [] [] with time := 4, seen := 1 }
    (∀ front, front <+: [commitAt 1, commitAt 2] → (∃ msg ∈ front, msg.messageType = .commit) →
      (after front).1.error = none → InSync (after front).1.mlsGroup (after front).2) ↔
    ∀ front msg, front ++ [msg] <+: [commitAt 1, commitAt 2] → (after front).1.error = none →
      ¬ BreaksSync diskFull "g" msg (after front).1 (after front).2 :=
  inSync_iff plain plain_storesGroups diskFull (fun _ => rfl) () (batch [commitAt 1, commitAt 2])
    openGroup_diskFull

end KChat.Mls
