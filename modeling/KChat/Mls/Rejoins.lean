import KChat.Mls.Frame
import KChat.Mls.PlainRemovals

/-!
# Welcomes and what follows them

* `AcceptsWelcome`: OpenMLS accepts a Welcome on a store. **`joins_iff`**: then it is joined through,
  unless a failure strikes its transaction.
* `Advanced`: what becomes of a group that was joined; `step_advanced`: the step lemma.
* `LastJoined`: the last Welcome that was accepted, and what followed it; **`lastJoined_of_joins`**:
  the run lemma.
* `Rejoined`; **`rejoined_iff`**: a group is joined iff its batch is not skipped and some Welcome is
  `Spared`.
-/

namespace KChat.Mls

open Lib OpenMls

variable {M : OpenMls} {env : Surroundings M} {config : M.JoinConfig}

/-! ## Welcomes that are accepted -/

/-- **OpenMLS accepts the Welcome** on this store. -/
def AcceptsWelcome (config : M.JoinConfig) (blob : Bytes) (db : M.Db) : Prop :=
  ∃ g t, (processWelcome (M := M) .calm blob config).run ⟨db, [], 0, 0⟩ = .ok g t

variable (M) in
/-- **Groups and Welcomes**: what the methods of a group write has no part in whether a Welcome is
accepted. -/
def OpenMls.WelcomesApart : Prop := ∀ config blob, M.GroupsUntouched (AcceptsWelcome config blob)

/-- What is asked of OpenMLS about a Welcome, while nothing fails. -/
theorem processWelcome_calm_iff (hcalm : ∀ t, env.fault t = none) {blob : Bytes} {s : Session M} :
    (∃ g t, (processWelcome env blob config).run s = .ok g t) ↔
    ∃ message welcome staged db₁ g db₂, M.deserialize blob = .ok message ∧
      M.extractWelcome message = some welcome ∧
      (M.stageWelcome config welcome none).run s.store = .ok staged db₁ ∧
      (M.intoGroup staged none).run db₁ = .ok g db₂ := by
  have hwp : (∃ g t, (processWelcome env blob config).run s = .ok g t) ↔
      wp (processWelcome env blob config) s (fun _ _ => True) fun _ _ => False := by
    constructor
    · rintro ⟨g, t, hrun⟩
      exact (wp_of_ok hrun).mpr trivial
    · intro h
      obtain ⟨g, t, hrun, -⟩ := exists_run_of_wp h
      exact ⟨g, t, hrun⟩
  rw [hwp, processWelcome, wp_bind]
  cases hmessage : M.deserialize blob with
  | error e => simp [Except.mapError, ofResult]
  | ok message =>
    cases hwelcome : M.extractWelcome message with
    | none => simp [Except.mapError, ofResult, orThrow, hwelcome]
    | some welcome =>
      simp only [Except.mapError, ofResult, wp_pure, wp_bind, hwelcome, orThrow, wp_useStore, hcalm,
        Except.ok.injEq, exists_and_left, exists_eq_left', Option.some.injEq]
      cases hstage : (M.stageWelcome config welcome none).run s.store with
      | error e db₁ => simp [wp_of_error hstage]
      | ok staged db₁ =>
        rw [wp_of_ok hstage]
        cases hjoin : (M.intoGroup staged none).run db₁ with
        | error e db₂ => simp [wp_of_error hjoin, hjoin]
        | ok g db₂ => simp [wp_of_ok hjoin, hjoin]

theorem acceptsWelcome_iff {blob : Bytes} {db : M.Db} : AcceptsWelcome config blob db ↔
    ∃ message welcome staged db₁ g db₂, M.deserialize blob = .ok message ∧
      M.extractWelcome message = some welcome ∧
      (M.stageWelcome config welcome none).run db = .ok staged db₁ ∧
      (M.intoGroup staged none).run db₁ = .ok g db₂ :=
  processWelcome_calm_iff fun _ => rfl

theorem exists_transaction_ok_iff {α : Type} (hcalm : ∀ t, env.fault t = none) {x : Action M α}
    {s : Session M} : (∃ a t, (transaction env x).run s = .ok a t) ↔
      ∃ a t, x.run (s.await env).tick = .ok a t := by
  constructor
  · rintro ⟨a, t, hrun⟩
    have hspec : wp (transaction env x) s (fun _ _ => ∃ a t, x.run (s.await env).tick = .ok a t)
        fun _ _ => True := by
      refine wp_transaction (fun _ _ => trivial) fun _ => ?_
      cases hx : x.run (s.await env).tick with
      | ok a t => exact (wp_of_ok hx).mpr ⟨fun _ _ => trivial, fun _ => ⟨a, t, rfl⟩⟩
      | error e t => exact (wp_of_error hx).mpr trivial
    exact (wp_of_ok hrun).mp hspec
  · rintro ⟨a, t, hx⟩
    have hspec : wp (transaction env x) s (fun _ _ => True) fun _ _ => False := by
      refine wp_transaction (fun e he => ?_) fun _ => (wp_of_ok hx).mpr ⟨fun e he => ?_, fun _ => trivial⟩
      · rw [hcalm] at he
        cases he
      · rw [hcalm] at he
        cases he
    obtain ⟨b, u, hrun, -⟩ := exists_run_of_wp hspec
    exact ⟨b, u, hrun⟩

/-! ## After a Welcome -/

/-- **What becomes of a group that was joined**: `messages` later, the group in memory and what is
stored of the group. Nothing but a commit that is accepted changes what is stored. -/
inductive Advanced (env : Surroundings M) (id : String) (w : M.Group) :
    List MlsMessage → M.Group → Option M.Group → Prop
  | joined : Advanced env id w [] w (some w)
  | loaded {messages : List MlsMessage} {h g : M.Group}
    (hbefore : Advanced env id w messages h (some g)) : Advanced env id w messages g (some g)
  | skipped {messages : List MlsMessage} {h : M.Group} {g : Option M.Group} {msg : MlsMessage}
    (hbefore : Advanced env id w messages h g) (htype : msg.messageType ≠ .commit) :
    Advanced env id w (messages ++ [msg]) h g
  | accepted {messages : List MlsMessage} {h : M.Group} {s : Session M} {msg : MlsMessage}
    {r : ProcessOperationMessageResult} {t : Owning M.Group (Session M)}
    (hbefore : Advanced env id w messages h (M.stored s.store id))
    (htype : msg.messageType = .commit)
    (hrun : (transactionOn env (processOperationMessage env msg.blob)).run ⟨h, s⟩ = .ok r t) :
    Advanced env id w (messages ++ [msg]) t.self (M.stored t.world.store id)
  | rejected {messages : List MlsMessage} {h : M.Group} {s : Session M} {msg : MlsMessage}
    {text : String} {t : Owning M.Group (Session M)}
    (hbefore : Advanced env id w messages h (M.stored s.store id))
    (htype : msg.messageType = .commit)
    (hrun : (transactionOn env (processOperationMessage env msg.blob)).run ⟨h, s⟩ = .error text t) :
    Advanced env id w (messages ++ [msg]) t.self (M.stored s.store id)

/-- **A Welcome is joined through** iff OpenMLS accepts it on the store and no failure strikes its
transaction. -/
theorem joins_iff (hfails : M.FailsWhenHit) (halone : ∀ t, env.others t = []) {msg : MlsMessage}
    {s : Session M} : (∃ w, Joins env config msg s w) ↔ msg.messageType = .welcome ∧
      AcceptsWelcome config msg.blob s.store ∧ ¬ WelcomeStruck env config msg.blob s := by
  have hawait : (s.await env.spared).tick.store = s.store := Session.await_store_of_alone halone s
  have haccepts : AcceptsWelcome config msg.blob s.store ↔ ∃ g t,
      (transaction env.spared (processWelcome env.spared msg.blob config)).run s = .ok g t := by
    rw [exists_transaction_ok_iff fun _ => rfl, processWelcome_calm_iff fun _ => rfl, hawait]
    exact acceptsWelcome_iff
  rw [haccepts]
  constructor
  · rintro ⟨w, htype, t, hrun⟩
    obtain ⟨hspared, hstruck⟩ := (processWelcome_ok_iff hfails).mp hrun
    exact ⟨htype, ⟨w, t, hspared⟩, hstruck⟩
  · rintro ⟨htype, ⟨w, t, hspared⟩, hstruck⟩
    exact ⟨w, htype, t, (processWelcome_ok_iff hfails).mpr ⟨hspared, hstruck⟩⟩

section steps

variable (hM : M.StoresGroups) (halone : ∀ t, env.others t = []) {id : String} {msg : MlsMessage}
  {messages : List MlsMessage} {w h : M.Group} {l : Progress M} {s : Session M}
include hM halone

variable (msg) in
theorem reload_advanced (hl : l.mlsGroup = some h)
    (hadv : Advanced env id w messages h (M.stored s.store id)) :
    ∃ h', (l.reload env id msg s).1.mlsGroup = some h' ∧
      Advanced env id w messages h' (M.stored (l.reload env id msg s).2.store id) := by
  have hload := load_spec env hM id [msg.epoch] s
  rw [Session.await_store_of_alone halone] at hload
  by_cases hloaded : l.commitGroupLoaded
  · rw [Progress.reload_of_loaded hloaded]
    exact ⟨h, hl, hadv⟩
  cases hrun : (loadGroupWithEpochMessageSecrets env id [msg.epoch]).run s with
  | ok g t =>
    obtain ⟨hg, ht⟩ := (wp_of_ok hrun).mp hload
    rw [Progress.reload_of_ok hloaded hrun]
    refine ⟨g, rfl, ?_⟩
    rw [hg] at hadv
    rw [ht, hg]
    exact hadv.loaded
  | error e t =>
    rw [Progress.reload_of_error hloaded hrun, Progress.stopIfFatal_mlsGroup]
    refine ⟨h, hl, ?_⟩
    rw [(wp_of_error hrun).mp hload]
    exact hadv

omit hM in
theorem applyCommit_advanced (hl : l.mlsGroup = some h)
    (hadv : Advanced env id w messages h (M.stored s.store id)) (htype : msg.messageType = .commit) :
    ∃ h', (l.applyCommit env id msg s).1.mlsGroup = some h' ∧
      Advanced env id w (messages ++ [msg]) h' (M.stored (l.applyCommit env id msg s).2.store id) := by
  have hundone := transactionOn_undone env (processOperationMessage env msg.blob) ⟨h, s⟩
  cases hrun : (transactionOn env (processOperationMessage env msg.blob)).run ⟨h, s⟩ with
  | ok r t =>
    rw [Progress.applyCommit_of_ok hl hrun]
    exact ⟨t.self, rfl, hadv.accepted htype hrun⟩
  | error text t =>
    obtain ⟨hstore, -⟩ := (wp_of_error hrun).mp hundone
    rw [Session.await_store_of_alone halone] at hstore
    rw [Progress.applyCommit_of_error hl hrun, Progress.stopIfFatal_mlsGroup]
    refine ⟨t.self, rfl, ?_⟩
    rw [hstore]
    exact hadv.rejected htype hrun

/-- **Step lemma.** -/
theorem step_advanced {latestEpoch : ℕ} (hl : l.mlsGroup = some h)
    (hadv : Advanced env id w messages h (M.stored s.store id))
    (hjoins : ∀ w', ¬Joins env config msg s w')
    (herror : (l.step env id config latestEpoch msg s).1.error = none) :
    ∃ h', (l.step env id config latestEpoch msg s).1.mlsGroup = some h' ∧
      Advanced env id w (messages ++ [msg]) h'
        (M.stored (l.step env id config latestEpoch msg s).2.store id) := by
  unfold Progress.step at herror ⊢
  cases htype : msg.messageType with
  | welcome =>
    have hspec := processWelcome_spec env hM msg.blob config s
    rw [Session.await_store_of_alone halone] at hspec
    dsimp only
    cases hrun : (transaction env (processWelcome env msg.blob config)).run s with
    | ok w' t => exact absurd ⟨htype, t, hrun⟩ (hjoins w')
    | error text t =>
      rw [Progress.welcomeArm_of_error hrun, (wp_of_error hrun).mp hspec]
      exact ⟨h, hl, hadv.skipped (by simp [htype])⟩
  | proposal =>
    dsimp only
    rw [Progress.proposalArm_mlsGroup]
    exact ⟨h, hl, hadv.skipped (by simp [htype])⟩
  | unknown => exact ⟨h, hl, hadv.skipped (by simp [htype])⟩
  | commit =>
    rw [htype] at herror
    dsimp only at herror ⊢
    rcases Progress.commitArm_cases herror with ⟨hnone, -⟩ | ⟨hsome, hreload, happly⟩
    · rw [hl] at hnone
      cases hnone
    · obtain ⟨h', hl', hadv'⟩ := reload_advanced hM halone msg hl hadv
      rw [Progress.commitArm_of_continue hsome hreload happly, Progress.dropRemoved_mlsGroup]
      exact applyCommit_advanced halone hl' hadv' htype

end steps

/-! ## Runs -/

/-- The second loop of an opened group, after the messages of `front`. -/
abbrev afterFront (env : Surroundings M) (config : M.JoinConfig) (args : AllMessagesOfGroupArgs)
    (opening : Opening M) (s : Session M) (front : List MlsMessage) : Progress M × Session M :=
  progressAfter env config args opening.mlsGroup s front

/-- **The last Welcome that was accepted** among `messages`, and what became of its group. -/
def LastJoined (env : Surroundings M) (config : M.JoinConfig) (args : AllMessagesOfGroupArgs)
    (opening : Opening M) (s : Session M) (messages : List MlsMessage) : Prop :=
  let after := afterFront env config args opening s
  ∃ front msg back w h, messages = front ++ msg :: back ∧ Joins env config msg (after front).2 w ∧
    (∀ middle x, middle ++ [x] <+: back →
      ∀ w', ¬Joins env config x (after (front ++ msg :: middle)).2 w') ∧
    (after messages).1.mlsGroup = some h ∧
    Advanced env args.groupId w back h (M.stored (after messages).2.store args.groupId)

section runs

variable (hM : M.StoresGroups) (halone : ∀ t, env.others t = []) {args : AllMessagesOfGroupArgs}
  {opening : Opening M} {s : Session M} {messages : List MlsMessage} {msg : MlsMessage}
include hM

theorem lastJoined_concat (hof : OfGroup env config args) (hmsg : msg ∈ args.messages)
    {w : M.Group} (hjoins : Joins env config msg (afterFront env config args opening s messages).2 w)
    (herror : (afterFront env config args opening s messages).1.error = none) :
    LastJoined env config args opening s (messages ++ [msg]) := by
  have hid := hof msg hmsg _ w hjoins
  obtain ⟨htype, t, hrun⟩ := id hjoins
  have hstored := (wp_of_ok hrun).mp (processWelcome_spec env hM msg.blob config _)
  refine ⟨messages, msg, [], w, w, rfl, hjoins, fun middle x h => ?_, ?_⟩
  · simp at h
  rw [afterFront, progressAfter_concat herror, Progress.step, htype]
  dsimp only
  rw [Progress.welcomeArm_of_ok hrun]
  refine ⟨rfl, ?_⟩
  rw [← hid, hstored]
  exact .joined

include halone in
/-- **Run lemma**: once a Welcome was accepted, the group is the last one joined, advanced. -/
theorem lastJoined_of_joins (hof : OfGroup env config args) (hmessages : messages <+: args.messages)
    (herror : (afterFront env config args opening s messages).1.error = none)
    {front : List MlsMessage} (hfront : front ++ [msg] <+: messages) {w : M.Group}
    (hjoins : Joins env config msg (afterFront env config args opening s front).2 w) :
    LastJoined env config args opening s messages := by
  induction messages using List.reverseRecOn with
  | nil => simp at hfront
  | append_singleton messages x ih =>
    have herror' : (afterFront env config args opening s messages).1.error = none :=
      progressAfter_error herror
    have hx : x ∈ args.messages := hmessages.subset (by simp)
    by_cases hjx : ∃ w', Joins env config x (afterFront env config args opening s messages).2 w'
    · obtain ⟨w', hw'⟩ := hjx
      exact lastJoined_concat hM hof hx hw' herror'
    rcases List.prefix_concat_iff.mp hfront with heq | hfront
    · obtain ⟨rfl, hsingle⟩ := List.append_inj' heq rfl
      obtain rfl := List.singleton_inj.mp hsingle
      exact absurd ⟨w, hjoins⟩ hjx
    obtain ⟨front', msg', back, w', h, rfl, hjoins', hlast, hmem, hadv⟩ :=
      ih ((List.prefix_append _ _).trans hmessages) herror' hfront
    have hstep : progressAfter env config args opening.mlsGroup s
        (front' ++ msg' :: back ++ [x]) = _ := progressAfter_concat herror'
    rw [afterFront, hstep] at herror
    obtain ⟨h', hmem', hadv'⟩ := step_advanced hM halone hmem hadv
      (fun w'' hw'' => hjx ⟨w'', hw''⟩) herror
    refine ⟨front', msg', back ++ [x], w', h', by simp, hjoins', fun middle y hy => ?_, ?_⟩
    · rcases List.prefix_concat_iff.mp hy with heq | hy
      · obtain ⟨rfl, hsingle⟩ := List.append_inj' heq rfl
        obtain rfl := List.singleton_inj.mp hsingle
        exact fun w'' hw'' => hjx ⟨w'', hw''⟩
      · exact hlast middle y hy
    · rw [afterFront, hstep]
      exact ⟨hmem', hadv'⟩

variable (hwelcomes : M.WelcomesApart)
include halone hwelcomes

/-- As long as no Welcome is accepted, one that would be stays so. -/
theorem step_accepts {id : String} {latestEpoch : ℕ} {l : Progress M} {blob : Bytes}
    (haccepts : AcceptsWelcome config blob s.store) (hjoins : ∀ w, ¬Joins env config msg s w) :
    AcceptsWelcome config blob (l.step env id config latestEpoch msg s).2.store := by
  unfold Progress.step
  cases htype : msg.messageType with
  | welcome =>
    have hspec := processWelcome_spec env hM msg.blob config s
    rw [Session.await_store_of_alone halone] at hspec
    dsimp only
    cases hrun : (transaction env (processWelcome env msg.blob config)).run s with
    | ok w t => exact absurd ⟨htype, t, hrun⟩ (hjoins w)
    | error text t =>
      rw [Progress.welcomeArm_of_error hrun, (wp_of_error hrun).mp hspec]
      exact haccepts
  | commit =>
    exact (commitArm_holds (b := s.beside) (hwelcomes config blob)
      (Surroundings.untouched_of_alone halone) id msg l ⟨haccepts, rfl⟩).1
  | proposal => exact haccepts
  | unknown => exact haccepts

/-- **A Welcome that is acceptable at the start** is joined through in its turn, unless a failure
strikes it then, or an earlier one is. -/
theorem joins_of_accepts (hfails : M.FailsWhenHit)
    (herror : (afterFront env config args opening s args.messages).1.error = none)
    {front : List MlsMessage} (hfront : front ++ [msg] <+: args.messages)
    (htype : msg.messageType = .welcome) (haccepts : AcceptsWelcome config msg.blob s.store)
    (hstruck : ¬ WelcomeStruck env config msg.blob (afterFront env config args opening s front).2) :
    ∃ front x w, front ++ [x] <+: args.messages ∧
      Joins env config x (afterFront env config args opening s front).2 w := by
  by_contra hjoins
  have hkept : ∀ front, front <+: args.messages →
      (afterFront env config args opening s front).1.error = none →
      AcceptsWelcome config msg.blob (afterFront env config args opening s front).2.store := by
    intro front
    induction front using List.reverseRecOn with
    | nil =>
      intro _ _
      exact (prePass_holds (b := s.beside) (hwelcomes config msg.blob)
        (Surroundings.untouched_of_alone halone) args.messages _ ⟨haccepts, rfl⟩).1
    | append_singleton front x ih =>
      intro hfront hnone
      have hnone' := progressAfter_error hnone
      rw [afterFront, progressAfter_concat hnone']
      refine step_accepts hM halone hwelcomes
        (ih ((List.prefix_append _ _).trans hfront) hnone') fun w hw => ?_
      exact hjoins ⟨front, x, w, hfront, hw⟩
  have hbefore : front <+: args.messages := (List.prefix_append _ _).trans hfront
  have hnone : (afterFront env config args opening s front).1.error = none := by
    obtain ⟨back, hsplit⟩ := hbefore
    rw [afterFront, ← hsplit] at herror
    exact progressAfter_error herror
  obtain ⟨w, hw⟩ := (joins_iff hfails halone).mpr ⟨htype, hkept front hbefore hnone, hstruck⟩
  exact hjoins ⟨front, msg, w, hfront, hw⟩

end runs

/-! ## Calls -/

/-- The batch is not skipped: the group cannot be loaded, or its own id is in its leaf. -/
def Enters (env : Surroundings M) (i : AllMessagesOfGroupArgs × Session M) : Prop :=
  ∀ g t, (loadGroupWithEpochMessageSecrets env i.1.groupId (preloadEpochs i.1.messages)).run i.2 =
    .ok g t → (ownIdFromLeafNode g).isSome

/-- **A Welcome is spared**: OpenMLS accepts it on the store in its turn, and no failure occurs at a
moment its transaction takes. -/
def Spared (env : Surroundings M) (config : M.JoinConfig)
    (i : AllMessagesOfGroupArgs × Session M) : Prop :=
  ∃ msg l s, Reaches env config i msg l s ∧ msg.messageType = .welcome ∧
    AcceptsWelcome config msg.blob s.store ∧ ¬ WelcomeStruck env config msg.blob s

/-- **The group is the one last joined, advanced, and it is reported.** -/
def Rejoined (env : Surroundings M) (config : M.JoinConfig)
    (i : AllMessagesOfGroupArgs × Session M) : Prop :=
  (report env config i).isSome ∧ ∃ opening s,
    (openGroup env i.1).run i.2 = .ok (some opening) s ∧
    (closing env config i) = (afterFront env config i.1 opening s i.1.messages).2 ∧
    LastJoined env config i.1 opening s i.1.messages

theorem openGroup_enters (i : AllMessagesOfGroupArgs × Session M) :
    wp (openGroup env i.1) i.2 (fun o _ => o.isSome ↔ Enters env i) fun _ _ => Enters env i := by
  rw [openGroup, wp_bind, wp_attempt]
  cases hrun : (loadGroupWithEpochMessageSecrets env i.1.groupId
      (preloadEpochs i.1.messages)).run i.2 with
  | error e t =>
    refine (wp_of_error hrun).mpr ⟨fun _ g u hload => ?_, fun _ => rfl⟩
    rw [hrun] at hload
    cases hload
  | ok existing t =>
    have henters : Enters env i ↔ (ownIdFromLeafNode existing).isSome := by
      refine ⟨fun h => h existing t hrun, fun h g u hload => ?_⟩
      rw [hrun] at hload
      cases hload
      exact h
    refine (wp_of_ok hrun).mpr ?_
    rw [henters]
    dsimp only
    cases ownIdFromLeafNode existing with
    | none => exact Iff.rfl
    | some ownMemberId =>
      dsimp only
      rw [wp_bind]
      refine wp_mono (wp_true _ _) (fun row u _ => ?_) fun _ _ _ => rfl
      rw [wp_bind]
      exact wp_mono (wp_true _ _) (fun _ _ _ => Iff.rfl) fun _ _ _ => rfl

theorem exists_run_of_mem_iterations {groups : List AllMessagesOfGroupArgs} {s₀ s₁ : Session M}
    {result : ProcessAllMessagesResult}
    (h : (processAllMessages env config groups).run s₀ = .ok result s₁)
    {i : AllMessagesOfGroupArgs × Session M} (hi : i ∈ iterations env config groups s₀) :
    ∃ r t, (processGroup env config i.1).run i.2 = .ok r t := by
  induction groups generalizing s₀ s₁ result with
  | nil => cases hi
  | cons args rest ih =>
    obtain ⟨r, t, hr, h⟩ := bind_eq_ok h
    obtain ⟨result', u, hrest, -⟩ := bind_eq_ok h
    rw [iterations, hr] at hi
    rcases List.mem_cons.mp hi with rfl | hi
    · exact ⟨r, t, hr⟩
    · exact ih hrest hi

section batch

variable {i : AllMessagesOfGroupArgs × Session M} {opening : Opening M} {u : Session M}

theorem exists_opening_of_enters (henters : Enters env i)
    (hrun : ∃ r t, (processGroup env config i.1).run i.2 = .ok r t)
    (herror : ∀ r, report env config i = some r → r.error = none) :
    ∃ opening u, (openGroup env i.1).run i.2 = .ok (some opening) u ∧
      (afterFront env config i.1 opening u i.1.messages).1.error = none := by
  obtain ⟨r, t, hr⟩ := hrun
  obtain ⟨o, u, hopen, -⟩ := bind_eq_ok hr
  obtain ⟨opening, rfl⟩ :=
    Option.isSome_iff_exists.mp (((wp_of_ok hopen).mp (openGroup_enters i)).mpr henters)
  obtain ⟨report', hreport, herror'⟩ := Option.map_eq_some_iff.mp (report_of_open config hopen)
  rw [herror report' hreport] at herror'
  exact ⟨opening, u, hopen, herror'.symm⟩

theorem spared_of_joins (hfails : M.FailsWhenHit) (halone : ∀ t, env.others t = [])
    (hopen : (openGroup env i.1).run i.2 = .ok (some opening) u)
    (hnone : (afterFront env config i.1 opening u i.1.messages).1.error = none)
    {front : List MlsMessage} {msg : MlsMessage} {w : M.Group}
    (hfront : front ++ [msg] <+: i.1.messages)
    (hjoins : Joins env config msg (afterFront env config i.1 opening u front).2 w) :
    Spared env config i := by
  obtain ⟨htype, haccepts, hstruck⟩ := (joins_iff hfails halone).mp ⟨w, hjoins⟩
  refine ⟨msg, _, _, ⟨opening, u, front, hopen, hfront, rfl, ?_⟩, htype, haccepts, hstruck⟩
  obtain ⟨back, hsplit⟩ := (List.prefix_append front [msg]).trans hfront
  rw [afterFront, ← hsplit] at hnone
  exact progressAfter_error hnone

/-- What the last Welcome that is joined through leaves is reported. -/
theorem rejoined_of_joins (hM : M.StoresGroups) (halone : ∀ t, env.others t = [])
    (hof : OfGroup env config i.1) (hopen : (openGroup env i.1).run i.2 = .ok (some opening) u)
    (hnone : (afterFront env config i.1 opening u i.1.messages).1.error = none)
    {front : List MlsMessage} {msg : MlsMessage} {w : M.Group}
    (hfront : front ++ [msg] <+: i.1.messages)
    (hjoins : Joins env config msg (afterFront env config i.1 opening u front).2 w) :
    Rejoined env config i := by
  obtain ⟨report', hreport, -⟩ := Option.map_eq_some_iff.mp (report_of_open config hopen)
  have hclosing : closing env config i = (afterFront env config i.1 opening u i.1.messages).2 := by
    unfold closing
    rw [processGroup, run_bind_ok hopen]
    rfl
  refine ⟨by rw [hreport]; rfl, opening, u, hopen, hclosing, ?_⟩
  exact lastJoined_of_joins hM halone hof (List.prefix_refl _) hnone hfront hjoins

end batch

@[reducible] def plainLeaves : OpenMls :=
  { plain with ownLeaf := fun g => if g.own ∈ g.members then some g.own else none }

namespace Plain

theorem writes_plainLeaves {α : Type} {x : plain.GroupMethod α} (h : Writes (M := plain) x) :
    Writes (M := plainLeaves) x := ⟨h.groupId, h.stored⟩

/-- A Welcome is accepted if its key package is there. -/
theorem acceptsWelcome_plainLeaves {blob : Bytes} {db : PlainDb} :
    AcceptsWelcome (M := plainLeaves) () blob db ↔
      ∃ keyPackage ∈ db.keyPackages, deserialize blob = .ok (.welcome keyPackage) := by
  rw [acceptsWelcome_iff]
  constructor
  · rintro ⟨message, keyPackage, staged, db₁, g, db₂, hmessage, hwelcome, hstage, -⟩
    cases message with
    | welcome keyPackage' =>
      obtain rfl := Option.some.inj hwelcome
      refine ⟨keyPackage', ?_, hmessage⟩
      by_contra hnot
      have hrun : (plainLeaves.stageWelcome () keyPackage' none).run db =
        .error "No matching key package was found in the key store." db := if_neg hnot
      rw [hrun] at hstage
      cases hstage
    | commit epoch references => cases hwelcome
    | proposal epoch proposal => cases hwelcome
  · rintro ⟨keyPackage, hmem, hmessage⟩
    exact ⟨.welcome keyPackage, keyPackage, keyPackage, _, _, _, hmessage, rfl, if_pos hmem, rfl⟩

theorem change_keyPackages {α : Type} (a : α) (f : PlainGroup → PlainGroup) (fault : Option String)
    (s : Owning PlainGroup PlainDb) :
    (final ((change a f fault).run s)).world.keyPackages = s.world.keyPackages := by
  cases fault with
  | some e => rfl
  | none => rfl

theorem changeIf_keyPackages {α : Type} (pending : Bool) (a : α) (f : PlainGroup → PlainGroup)
    (fault : Option String) (s : Owning PlainGroup PlainDb) :
    (final ((changeIf pending a f fault).run s)).world.keyPackages = s.world.keyPackages := by
  by_cases h : PlainGroup.pending s.self = pending
  · rw [changeIf_of_eq h]
    exact change_keyPackages a f fault s
  · rw [changeIf_of_ne h]
    rfl

theorem processMessage_keyPackages (m : PlainMessage) (fault : Option String)
    (s : Owning PlainGroup PlainDb) :
    (final ((plain.processMessage m fault).run s)).world.keyPackages = s.world.keyPackages := by
  cases fault with
  | some e => rfl
  | none =>
    simp only [plain, EStateM.run]
    split <;> rfl

end Plain

open Plain

theorem plainLeaves_storesGroups : plainLeaves.StoresGroups where
  groupId := plain_storesGroups.groupId
  loadOptimize := plain_storesGroups.loadOptimize
  load := plain_storesGroups.load
  processMessage := plain_storesGroups.processMessage
  mergeStagedCommit commit := writes_plainLeaves (plain_storesGroups.mergeStagedCommit commit)
  storePendingProposal p := writes_plainLeaves (plain_storesGroups.storePendingProposal p)
  commitToPendingProposals signer :=
    writes_plainLeaves (plain_storesGroups.commitToPendingProposals signer)
  mergePendingCommit := writes_plainLeaves plain_storesGroups.mergePendingCommit
  clearPendingCommit := writes_plainLeaves plain_storesGroups.clearPendingCommit
  stageWelcome := plain_storesGroups.stageWelcome
  intoGroup := plain_storesGroups.intoGroup

theorem plainLeaves_failsWhenHit : plainLeaves.FailsWhenHit where
  readSignatureKeyPair := plain_failsWhenHit.readSignatureKeyPair
  processMessage := plain_failsWhenHit.processMessage
  mergeStagedCommit := plain_failsWhenHit.mergeStagedCommit
  storePendingProposal := plain_failsWhenHit.storePendingProposal
  commitToPendingProposals := plain_failsWhenHit.commitToPendingProposals
  stageWelcome := plain_failsWhenHit.stageWelcome
  intoGroup := plain_failsWhenHit.intoGroup

theorem plainLeaves_welcomesApart : plainLeaves.WelcomesApart := by
  intro config blob
  have hkept : ∀ {db db' : PlainDb}, db'.keyPackages = db.keyPackages →
      AcceptsWelcome (M := plainLeaves) config blob db →
      AcceptsWelcome (M := plainLeaves) config blob db' := by
    intro db db' hsame h
    rw [acceptsWelcome_plainLeaves] at h ⊢
    rwa [hsame]
  exact
    { processMessage := fun m fault s => hkept (processMessage_keyPackages m fault s)
      mergeStagedCommit := fun _ fault s => hkept (change_keyPackages _ _ fault s)
      storePendingProposal := fun p fault s => hkept
        (change_keyPackages () (fun g => { g with queue := g.queue ++ [p.reference] }) fault s)
      commitToPendingProposals := fun _ fault s => hkept (changeIf_keyPackages _ _ _ fault s)
      mergePendingCommit := fun fault s => hkept (changeIf_keyPackages _ _ _ fault s)
      clearPendingCommit := fun fault s =>
        hkept (change_keyPackages () (fun g => { g with pending := false }) fault s)
      delete := fun fault s => hkept (by cases fault <;> rfl) }

/-- The group that Ann was removed from, and a key package of hers. -/
def departed : Session plainLeaves where
  store := write { groups := fun _ => none, missing := [], keyPackages := [5] }
    { welcomed 3 with members := ["bob/2"] }
  beside := []
  time := 0
  seen := 0

def invited : Session plainLeaves where
  store := { groups := fun _ => none, missing := [], keyPackages := [5] }
  beside := []
  time := 0
  seen := 0

theorem ofGroup_welcomed (messages : List MlsMessage) :
    OfGroup (M := plainLeaves) .calm () (batch messages) := by
  rintro msg - s w ⟨-, t, hrun⟩
  have hspec : wp (transaction .calm (processWelcome (M := plainLeaves) .calm msg.blob ())) s
      (fun w _ => plainLeaves.groupId w = "g") fun _ _ => True := by
    refine wp_transaction (fun _ _ => trivial) fun _ => ?_
    rw [processWelcome, wp_bind]
    refine wp_ofResult (fun message _ => ?_) fun _ _ => trivial
    rw [wp_bind]
    refine wp_orThrow (fun welcome _ => ?_) fun _ => trivial
    rw [wp_bind]
    refine wp_mono (wp_true _ _) (fun staged u _ => ?_) fun _ _ _ => trivial
    rw [wp_useStore]
    exact ⟨fun _ _ => trivial, fun _ => rfl⟩
  exact (wp_of_ok hrun).mp hspec

theorem acceptsWelcome_five {s : Session plainLeaves} (h : 5 ∈ PlainDb.keyPackages s.store) :
    ∃ msg ∈ (batch [welcomeAt 5]).messages, msg.messageType = .welcome ∧
      AcceptsWelcome (M := plainLeaves) () msg.blob s.store :=
  ⟨welcomeAt 5, List.mem_singleton_self _, rfl, acceptsWelcome_plainLeaves.mpr ⟨5, h, rfl⟩⟩

end KChat.Mls
