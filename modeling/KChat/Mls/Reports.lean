import KChat.Mls.Failures
import KChat.Mls.Plain

/-!
# Lost messages and what is reported of them

* `Lost`: a Welcome or a Commit is not applied because of the store: its transaction is hit by a
  failure, or the group it is for could not be loaded.
* `Silent`: the four places at which a failure of the store passes without an error; `Fatal`: the
  step that ends a batch with one. `step_error_eq_none`, **`progressAfter_error_eq_none`**.
* `Lost.silent`, `Silent.lost`: what is lost, and not by a fatal step, met a silent failure.
* `iterations`: the groups of a call that are begun; `groupResults_eq`: what is reported of them.
* **`reported_iff`**: nothing is lost under a result without an error iff every silent failure is
  followed by a fatal one.
-/

namespace KChat.Mls

open Lib OpenMls

variable {M : OpenMls} (env : Surroundings M)

/-! ## Lost messages -/

def Hit (s s' : Session M) : Prop := env.FailsWithin s.time s'.time

/-- A group could not be loaded, for another reason than that there is none. -/
def LoadFails (groupId : String) (epochs : List ℕ) (s : Session M) : Prop :=
  ∃ err s', (loadGroupWithEpochMessageSecrets env groupId epochs).run s = .error err s' ∧
    err ≠ .groupIsNotExisted

def WelcomeLost (config : M.JoinConfig) (msg : MlsMessage) (s : Session M) : Prop :=
  ∃ text s', (transaction env (processWelcome env msg.blob config)).run s = .error text s' ∧
    Hit env s s'

def CommitFails (groupId : String) (msg : MlsMessage) (l : Progress M) (s : Session M)
    (text : String) (t : Owning M.Group (Session M)) : Prop :=
  l.mlsGroup.isSome ∧ (Progress.reload env groupId msg l s).1.error = none ∧
    ∃ g, (Progress.reload env groupId msg l s).1.mlsGroup = some g ∧
      (transactionOn env (processOperationMessage env msg.blob)).run
        ⟨g, (Progress.reload env groupId msg l s).2⟩ = .error text t

/-- A commit is not applied, and the transaction was hit or the group was not loaded again. -/
def CommitLost (groupId : String) (msg : MlsMessage) (l : Progress M) (s : Session M)
    (text : String) : Prop :=
  ∃ t, CommitFails env groupId msg l s text t ∧
    (Hit env (Progress.reload env groupId msg l s).2 t.world ∨
      ¬ l.commitGroupLoaded ∧ LoadFails env groupId [msg.epoch] s)

/-- There is no group for a commit, since it could not be loaded at the start `s₀`. -/
def Unloaded (args : AllMessagesOfGroupArgs) (s₀ : Session M) (l : Progress M) : Prop :=
  l.mlsGroup = none ∧ LoadFails env args.groupId (preloadEpochs args.messages) s₀

/-- **A message is lost**: neither applied nor rejected by OpenMLS alone. -/
def Lost (config : M.JoinConfig) (args : AllMessagesOfGroupArgs) (s₀ : Session M)
    (msg : MlsMessage) (l : Progress M) (s : Session M) : Prop :=
  match msg.messageType with
  | .welcome => WelcomeLost env config msg s
  | .commit => Unloaded env args s₀ l ∨ ∃ text, CommitLost env args.groupId msg l s text
  | _ => False

/-- **A failure of the store passes silently**: it strikes the transaction of a Welcome; a Commit is
reached without a group because the load at the start `s₀` failed; it strikes the transaction of a
Commit, which fails with a line that is not marked; or the group could not be loaded again, and the
Commit fails on the one in memory with such a line. -/
inductive Silent (config : M.JoinConfig) (args : AllMessagesOfGroupArgs) (s₀ : Session M)
    (msg : MlsMessage) (l : Progress M) (s : Session M) : Prop
  | welcome (htype : msg.messageType = .welcome)
    (hstruck : WelcomeStruck env config msg.blob s) : Silent config args s₀ msg l s
  | unloaded (htype : msg.messageType = .commit) (hnone : l.mlsGroup = none)
    (hload : LoadFails env args.groupId (preloadEpochs args.messages) s₀) :
    Silent config args s₀ msg l s
  | commit {text : String} {t : Owning M.Group (Session M)} (htype : msg.messageType = .commit)
    {g : M.Group} (hsome : l.mlsGroup.isSome)
    (hreload : (Progress.reload env args.groupId msg l s).1.error = none)
    (hg : (Progress.reload env args.groupId msg l s).1.mlsGroup = some g)
    (hstruck : CommitStruck env msg.blob g (Progress.reload env args.groupId msg l s).2)
    (hrun : (transactionOn env (processOperationMessage env msg.blob)).run
      ⟨g, (Progress.reload env args.groupId msg l s).2⟩ = .error text t)
    (hquiet : ¬ isFatal (commitErrorLog args.groupId (.processMessage text))) :
    Silent config args s₀ msg l s
  | reload {text : String} {t : Owning M.Group (Session M)} (htype : msg.messageType = .commit)
    (hload : ¬ l.commitGroupLoaded ∧ LoadFails env args.groupId [msg.epoch] s)
    (hfails : CommitFails env args.groupId msg l s text t)
    (hquiet : ¬ isFatal (commitErrorLog args.groupId (.processMessage text))) :
    Silent config args s₀ msg l s

/-- **A commit whose load or transaction fails with a marked log line.** -/
def Fatal (groupId : String) (msg : MlsMessage) (l : Progress M) (s : Session M) : Prop :=
  msg.messageType = .commit ∧ l.mlsGroup.isSome ∧
    ((¬ l.commitGroupLoaded ∧ ∃ err s',
        (loadGroupWithEpochMessageSecrets env groupId [msg.epoch]).run s = .error err s' ∧
          isFatal (loadErrorLog groupId err)) ∨
      ∃ text t, CommitFails env groupId msg l s text t ∧
        isFatal (commitErrorLog groupId (.processMessage text)))

variable {env}

section silent

variable {config : M.JoinConfig} {args : AllMessagesOfGroupArgs} {s₀ : Session M}
  {msg : MlsMessage} {l : Progress M} {s : Session M} (hM : M.FailsWhenHit)
include hM

/-- What is lost, and not by a fatal step, met a silent failure. -/
theorem Lost.silent (h : Lost env config args s₀ msg l s)
    (hfatal : ¬ Fatal env args.groupId msg l s) : Silent env config args s₀ msg l s := by
  unfold Lost at h
  cases htype : msg.messageType with
  | welcome =>
    rw [htype] at h
    exact .welcome htype ((welcomeStruck_iff hM).mpr h)
  | commit =>
    rw [htype] at h
    rcases h with ⟨hnone, hload⟩ | ⟨text, t, hfails, hlost⟩
    · exact .unloaded htype hnone hload
    have hquiet : ¬ isFatal (commitErrorLog args.groupId (.processMessage text)) := fun hlog =>
      hfatal ⟨htype, hfails.1, .inr ⟨text, t, hfails, hlog⟩⟩
    rcases hlost with hhit | hload
    · obtain ⟨hsome, hreload, g, hg, hrun⟩ := hfails
      have hstruck := (commitStruck_iff hM).mpr ⟨text, t, hrun, hhit⟩
      exact .commit htype hsome hreload hg hstruck hrun hquiet
    · exact .reload htype hload hfails hquiet
  | proposal =>
    rw [htype] at h
    exact h.elim
  | unknown =>
    rw [htype] at h
    exact h.elim

theorem Silent.lost (h : Silent env config args s₀ msg l s) : Lost env config args s₀ msg l s := by
  unfold Lost
  cases h with
  | welcome htype hstruck =>
    rw [htype]
    exact (welcomeStruck_iff hM).mp hstruck
  | unloaded htype hnone hload =>
    rw [htype]
    exact .inl ⟨hnone, hload⟩
  | @commit text t htype g hsome hreload hg hstruck hrun hquiet =>
    rw [htype]
    obtain ⟨text', t', hrun', hhit⟩ := (commitStruck_iff hM).mp hstruck
    exact .inr ⟨text', t', ⟨hsome, hreload, g, hg, hrun'⟩, .inl hhit⟩
  | @reload text t htype hload hfails hquiet =>
    rw [htype]
    exact .inr ⟨text, t, hfails, .inr hload⟩

end silent

/-! ## The step that ends a batch -/

section error

variable {groupId : String} {msg : MlsMessage} {l : Progress M} {s : Session M}

theorem reload_error_eq_none (hl : l.error = none) :
    (Progress.reload env groupId msg l s).1.error = none ↔
      ¬ (¬ l.commitGroupLoaded ∧ ∃ err s',
        (loadGroupWithEpochMessageSecrets env groupId [msg.epoch]).run s = .error err s' ∧
          isFatal (loadErrorLog groupId err)) := by
  by_cases hloaded : l.commitGroupLoaded
  · rw [Progress.reload_of_loaded hloaded]
    exact ⟨fun _ h => h.1 hloaded, fun _ => hl⟩
  cases hrun : (loadGroupWithEpochMessageSecrets env groupId [msg.epoch]).run s with
  | ok g s' =>
    rw [Progress.reload_of_ok hloaded hrun]
    refine ⟨fun _ h => ?_, fun _ => hl⟩
    obtain ⟨-, err, t, herr, -⟩ := h
    cases herr
  | error err s' =>
    rw [Progress.reload_of_error hloaded hrun, Progress.stopIfFatal_error_eq_none]
    constructor
    · rintro ⟨hfatal, -⟩ ⟨-, err', t, herr, hfatal'⟩
      cases herr
      exact hfatal hfatal'
    · exact fun h => ⟨fun hfatal => h ⟨hloaded, err, s', rfl, hfatal⟩, hl⟩

theorem applyCommit_error_eq_none (hl : l.error = none) :
    (Progress.applyCommit env groupId msg l s).1.error = none ↔
      ∀ g text t, l.mlsGroup = some g →
        (transactionOn env (processOperationMessage env msg.blob)).run ⟨g, s⟩ = .error text t →
        ¬ isFatal (commitErrorLog groupId (.processMessage text)) := by
  cases hg : l.mlsGroup with
  | none =>
    rw [Progress.applyCommit_of_none hg]
    exact ⟨fun _ _ _ _ h => (by cases h), fun _ => hl⟩
  | some g =>
    cases hrun : (transactionOn env (processOperationMessage env msg.blob)).run ⟨g, s⟩ with
    | ok r t =>
      rw [Progress.applyCommit_of_ok hg hrun]
      refine ⟨fun _ g' text t' hg' hrun' => ?_, fun _ => hl⟩
      cases hg'
      rw [hrun] at hrun'
      cases hrun'
    | error text t =>
      rw [Progress.applyCommit_of_error hg hrun, Progress.stopIfFatal_error_eq_none]
      constructor
      · rintro ⟨hfatal, -⟩ g' text' t' hg' hrun'
        cases hg'
        rw [hrun] at hrun'
        cases hrun'
        exact hfatal
      · exact fun h => ⟨h g text t rfl hrun, hl⟩

/-- **Step lemma**: only a fatal failure ends the batch. -/
theorem step_error_eq_none {config : M.JoinConfig} {latestEpoch : ℕ} (hl : l.error = none) :
    (l.step env groupId config latestEpoch msg s).1.error = none ↔
      ¬ Fatal env groupId msg l s := by
  have hcommit : msg.messageType ≠ .commit → ¬ Fatal env groupId msg l s := fun hne h => hne h.1
  unfold Progress.step
  cases htype : msg.messageType with
  | welcome =>
    refine ⟨fun _ => hcommit (by simp [htype]), fun _ => ?_⟩
    dsimp only
    unfold Progress.welcomeArm
    split <;> exact hl
  | proposal =>
    dsimp only
    rw [Progress.proposalArm_error]
    exact ⟨fun _ => hcommit (by simp [htype]), fun _ => hl⟩
  | unknown => exact ⟨fun _ => hcommit (by simp [htype]), fun _ => hl⟩
  | commit =>
    dsimp only
    constructor
    · rintro herr ⟨-, hsome, hfatal⟩
      rcases Progress.commitArm_cases herr with ⟨hnone, -⟩ | ⟨-, hreload, happly⟩
      · rw [hnone] at hsome
        cases hsome
      · rcases hfatal with hfatal | ⟨text, t, ⟨-, -, g, hg, hrun⟩, hlog⟩
        · exact (reload_error_eq_none hl).mp hreload hfatal
        · exact (applyCommit_error_eq_none hreload).mp happly g text t hg hrun hlog
    · intro hfatal
      by_cases hsome : l.mlsGroup.isSome
      · have hreload : (Progress.reload env groupId msg l s).1.error = none :=
          (reload_error_eq_none hl).mpr fun h => hfatal ⟨htype, hsome, .inl h⟩
        have happly : (Progress.applyCommit env groupId msg (Progress.reload env groupId msg l s).1
            (Progress.reload env groupId msg l s).2).1.error = none :=
          (applyCommit_error_eq_none hreload).mpr fun g text t hg hrun hlog =>
            hfatal ⟨htype, hsome, .inr ⟨text, t, ⟨hsome, hreload, g, hg, hrun⟩, hlog⟩⟩
        rw [Progress.commitArm_of_continue hsome hreload happly, Progress.dropRemoved_error]
        exact happly
      · unfold Progress.commitArm
        rw [if_neg hsome, Progress.dropRemoved_error]
        exact hl

end error

/-- **A batch ends without an error iff no message of it is fatal.** -/
theorem progressAfter_error_eq_none {config : M.JoinConfig} {args : AllMessagesOfGroupArgs}
    {mlsGroup : Option M.Group} {s : Session M} (messages : List MlsMessage) :
    let after := progressAfter env config args mlsGroup s
    (after messages).1.error = none ↔ ∀ front msg, front ++ [msg] <+: messages →
      (after front).1.error = none →
      ¬ Fatal env args.groupId msg (after front).1 (after front).2 := by
  intro after
  induction messages using List.reverseRecOn with
  | nil => exact ⟨fun _ front msg h => by simp at h, fun _ => rfl⟩
  | append_singleton messages msg ih =>
    constructor
    · intro herr front x hpre hfront
      obtain ⟨rest, hrest⟩ := hpre
      have hnext : (after (front ++ [x])).1.error = none := by
        rw [← hrest] at herr
        exact progressAfter_error herr
      have hstep : after (front ++ [x]) = _ := progressAfter_concat hfront
      rw [hstep] at hnext
      exact (step_error_eq_none hfront).mp hnext
    · intro h
      have herr := ih.mpr fun front x hpre => h front x (hpre.trans (List.prefix_append _ _))
      have hstep : after (messages ++ [msg]) = _ := progressAfter_concat herr
      rw [hstep]
      exact (step_error_eq_none herr).mpr (h messages msg (List.prefix_refl _) herr)

/-! ## The groups of a call -/

variable (env) in
/-- The groups that are begun, each with the session at that moment. -/
def iterations (config : M.JoinConfig) :
    List AllMessagesOfGroupArgs → Session M → List (AllMessagesOfGroupArgs × Session M)
  | [], _ => []
  | args :: rest, s =>
    (args, s) :: match (processGroup env config args).run s with
      | .ok _ s => iterations config rest s
      | .error _ _ => []

variable (env) in
def report (config : M.JoinConfig) (i : AllMessagesOfGroupArgs × Session M) : Option GroupResult :=
  match (processGroup env config i.1).run i.2 with
  | .ok r _ => r.1
  | .error _ _ => none

theorem groupResults_eq {config : M.JoinConfig} {groups : List AllMessagesOfGroupArgs}
    {s s' : Session M} {result : ProcessAllMessagesResult}
    (h : (processAllMessages env config groups).run s = .ok result s') :
    result.groupResults = (iterations env config groups s).filterMap (report env config) := by
  induction groups generalizing s s' result with
  | nil =>
    cases h
    rfl
  | cons args rest ih =>
    obtain ⟨r, s₁, hr, h⟩ := bind_eq_ok h
    obtain ⟨result', s₂, hrest, h⟩ := bind_eq_ok h
    have hresult := ih hrest
    cases h
    have hreport : report env config (args, s) = r.1 := by
      unfold report
      rw [hr]
    have hiter : iterations env config (args :: rest) s =
        (args, s) :: iterations env config rest s₁ := by
      rw [iterations, hr]
    rw [hiter, List.filterMap_cons, hreport, ← hresult]
    cases r.1 <;> rfl

variable (env) in
/-- A message of a group is reached, after the messages before it. -/
def Reaches (config : M.JoinConfig) (i : AllMessagesOfGroupArgs × Session M) (msg : MlsMessage)
    (l : Progress M) (s : Session M) : Prop :=
  ∃ opening s' front, (openGroup env i.1).run i.2 = .ok (some opening) s' ∧
    front ++ [msg] <+: i.1.messages ∧
    progressAfter env config i.1 opening.mlsGroup s' front = (l, s) ∧ l.error = none

/-- A group that was opened is reported with the error of its second loop. -/
theorem report_of_open (config : M.JoinConfig) {i : AllMessagesOfGroupArgs × Session M}
    {opening : Opening M} {s' : Session M}
    (h : (openGroup env i.1).run i.2 = .ok (some opening) s') :
    (report env config i).map GroupResult.error =
      some (processMessages env config i.1 opening.mlsGroup s').1.error := by
  have hrun : (processGroup env config i.1).run i.2 = .ok _ _ := run_bind_ok h
  unfold report
  rw [hrun]
  rfl

theorem exists_open_of_report {config : M.JoinConfig} {i : AllMessagesOfGroupArgs × Session M}
    {r : GroupResult} (h : report env config i = some r) :
    ∃ opening s', (openGroup env i.1).run i.2 = .ok (some opening) s' := by
  unfold report at h
  split at h
  · rename_i p s'' hrun
    obtain ⟨o, s', hopen, hrun⟩ := bind_eq_ok hrun
    cases o with
    | none =>
      cases hrun
      cases h
    | some opening => exact ⟨opening, s', hopen⟩
  · cases h

/-- What is reported of a group stems from its two loops. -/
theorem exists_loops_of_report {config : M.JoinConfig} {i : AllMessagesOfGroupArgs × Session M}
    {r : GroupResult} (h : report env config i = some r) :
    ∃ opening s', (openGroup env i.1).run i.2 = .ok (some opening) s' ∧
      r = { groupId := i.1.groupId
            membersToRemove :=
              (processMessages env config i.1 opening.mlsGroup s').1.membersToRemove.keys
            membersToReadd := (processMessages env config i.1 opening.mlsGroup s').1.membersToReadd
            error := (processMessages env config i.1 opening.mlsGroup s').1.error } := by
  obtain ⟨opening, s', hopen⟩ := exists_open_of_report h
  refine ⟨opening, s', hopen, ?_⟩
  have hrun : (processGroup env config i.1).run i.2 = .ok _ _ := run_bind_ok hopen
  unfold report at h
  rw [hrun] at h
  exact (Option.some.inj h).symm

/-- **A group without an error in its result lost nothing, iff every silent failure in its batch is
followed by a fatal one.** -/
theorem report_iff (hM : M.FailsWhenHit) {config : M.JoinConfig}
    {i : AllMessagesOfGroupArgs × Session M} :
    (∀ r, report env config i = some r → r.error = none → ∀ msg l s,
      Reaches env config i msg l s → ¬ Lost env config i.1 i.2 msg l s) ↔
    ∀ msg l s, Reaches env config i msg l s → Silent env config i.1 i.2 msg l s →
      ∃ msg l s, Reaches env config i msg l s ∧ Fatal env i.1.groupId msg l s := by
  constructor
  · intro h msg l s hreach hsilent
    by_contra hfatal
    obtain ⟨opening, s', front, hopen, -, -, -⟩ := id hreach
    obtain ⟨r, hr, herr⟩ := Option.map_eq_some_iff.mp (report_of_open config hopen)
    refine h r hr (herr.trans ?_) msg l s hreach (hsilent.lost hM)
    refine (progressAfter_error_eq_none i.1.messages).mpr fun f x hf hferr hx => hfatal ?_
    exact ⟨x, _, _, ⟨opening, s', f, hopen, hf, rfl, hferr⟩, hx⟩
  · intro h r hr herr msg l s hreach hlost
    obtain ⟨opening, s', hopen⟩ := exists_open_of_report hr
    have herr' := report_of_open config hopen
    rw [hr, Option.map_some, herr] at herr'
    have hquiet := (progressAfter_error_eq_none i.1.messages).mp (Option.some.inj herr').symm
    have hno : ∀ msg l s, Reaches env config i msg l s → ¬ Fatal env i.1.groupId msg l s := by
      rintro msg l s ⟨opening', s'', front, hopen', hpre, hafter, hl⟩
      rw [hopen] at hopen'
      cases hopen'
      have hfront := hquiet front msg hpre
      rw [hafter] at hfront
      exact hfront hl
    obtain ⟨msg', l', s'', hreach', hfatal⟩ :=
      h msg l s hreach (hlost.silent hM (hno msg l s hreach))
    exact hno msg' l' s'' hreach' hfatal

namespace Plain

theorem change_givesUp {α : Type} (a : α) (f : PlainGroup → PlainGroup) : GivesUp (change a f) :=
  fun e s => ⟨e, ⟨f s.self, s.world⟩, rfl⟩

theorem changeIf_givesUp {α : Type} (pending : Bool) (a : α) (f : PlainGroup → PlainGroup) :
    GivesUp (changeIf pending a f) := by
  intro e s
  by_cases h : PlainGroup.pending s.self = pending
  · exact ⟨e, ⟨f s.self, s.world⟩, changeIf_of_eq h a f (some e)⟩
  · exact ⟨_, s, changeIf_of_ne h a f (some e)⟩

end Plain

theorem plain_failsWhenHit : plain.FailsWhenHit where
  readSignatureKeyPair _ _ _ := rfl
  processMessage _ e s := ⟨e, s, rfl⟩
  mergeStagedCommit _ := Plain.change_givesUp _ _
  storePendingProposal p := Plain.change_givesUp () fun g =>
    { g with queue := g.queue ++ [p.reference] }
  commitToPendingProposals _ := Plain.changeIf_givesUp _ _ _
  stageWelcome _ _ e db := ⟨e, db, rfl⟩
  intoGroup _ e db := ⟨e, db, rfl⟩

def locked : Surroundings plain where
  others _ := []
  fault t := if t = 1 then some "database is locked" else none

open Plain in
theorem processAllMessages_locked :
    (processAllMessages locked () [batch [commitAt 1]]).run (sessionAt 1 [] []) =
      .ok { groupResults :=
              [{ groupId := "g", membersToRemove := [], membersToReadd := ∅, error := none }]
            deletedGroups := [] } { sessionAt 1 [] [] with time := 3, seen := 1 } := rfl

end KChat.Mls
