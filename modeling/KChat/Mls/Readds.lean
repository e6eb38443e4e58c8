import KChat.Mls.Reports
import Mathlib.Data.Multiset.Lattice
import Mathlib.Order.Lattice.Nat

/-!
# Members to be added again

The first loop finds the latest epoch of a commit, and the second one collects the members that custom
proposals of later epochs are about. What is collected does not depend on the order of the messages.

* `latestCommitEpoch`, `ReaddsMember`, `readds`: who is to be added again.
* `prePass_latestEpoch`, **`mem_operationLoop_readds`**: the two loops.
* **`membersToReadd_eq_readds`**.
-/

namespace KChat.Mls

open Lib OpenMls

/-! ## Who is to be added again -/

/-- **The latest epoch of a commit**, zero if there is none. -/
def latestCommitEpoch (messages : Multiset MlsMessage) : ℕ :=
  ((messages.filter fun msg => msg.messageType = .commit).map MlsMessage.epoch).sup

/-- What is reported of the member that a custom proposal is about. -/
def readdMember (msg : MlsMessage) (proposal : CustomProposal) : MemberInfo where
  clientJid :=
    match proposal.clientJid with
    | some clientJid => some clientJid
    | none => proposal.mlsClientId.bind extractJidFromMemberId
  mlsClientId := proposal.mlsClientId
  mlsFingerprint := some msg.sender

/-- A message is a custom ReAdd proposal of a later epoch, about the member. -/
def ReaddsMember (parse : Bytes → Option CustomProposal) (latestEpoch : ℕ) (msg : MlsMessage)
    (info : MemberInfo) : Prop :=
  msg.messageType = .proposal ∧ latestEpoch < msg.epoch ∧ ∃ proposal,
    parse msg.blob = some proposal ∧ proposal.proposalType = .reAdd ∧ info = readdMember msg proposal

/-- **The members to be added again**, whatever the order of the messages is. -/
def readds (parse : Bytes → Option CustomProposal) (messages : Multiset MlsMessage) :
    Set MemberInfo :=
  {info | ∃ msg ∈ messages, ReaddsMember parse (latestCommitEpoch messages) msg info}

theorem latestCommitEpoch_cons (msg : MlsMessage) (messages : List MlsMessage) :
    latestCommitEpoch ↑(msg :: messages) =
      max (if msg.messageType = .commit then msg.epoch else 0) (latestCommitEpoch ↑messages) := by
  unfold latestCommitEpoch
  rw [← Multiset.cons_coe]
  by_cases hcommit : msg.messageType = .commit
  · simp [hcommit]
  · simp [hcommit]

variable {M : OpenMls} {env : Surroundings M}

/-! ## The first loop -/

namespace Inspection

variable {p : Inspection M} {msg : MlsMessage}

theorem noteProposal_latestEpoch (g : M.Group) (proposal : QueuedProposal) :
    (p.noteProposal g msg proposal).latestEpoch = p.latestEpoch := by
  unfold noteProposal
  split_ifs with hremove
  · dsimp only
    split_ifs <;> rfl
  · rfl

theorem noteCustomProposal_latestEpoch (g : M.Group) :
    (p.noteCustomProposal g msg).latestEpoch = p.latestEpoch := by
  unfold noteCustomProposal
  split
  · dsimp only
    split_ifs <;> rfl
  · rfl

/-- One message of the first loop. -/
theorem step_latestEpoch (s : Session M) : (p.step env msg s).1.latestEpoch =
    max p.latestEpoch (if msg.messageType = .commit then msg.epoch else 0) := by
  have hmax : (if p.latestEpoch < msg.epoch ∧ msg.messageType = .commit then
      { p with latestEpoch := msg.epoch } else p).latestEpoch =
      max p.latestEpoch (if msg.messageType = .commit then msg.epoch else 0) := by
    by_cases hcommit : msg.messageType = .commit
    · by_cases hlt : p.latestEpoch < msg.epoch
      · simp [hcommit, hlt, hlt.le]
      · simp [hcommit, hlt, Nat.le_of_not_lt hlt]
    · simp [hcommit]
  rw [← hmax]
  unfold Inspection.step
  dsimp only
  split
  · split
    · exact noteProposal_latestEpoch _ _
    · exact noteCustomProposal_latestEpoch _
  · rfl

end Inspection

theorem prePass_latestEpoch (messages : List MlsMessage) (p : Inspection M) (s : Session M) :
    (prePass env messages p s).1.latestEpoch =
      max p.latestEpoch (latestCommitEpoch ↑messages) := by
  induction messages generalizing p s with
  | nil => exact (Nat.max_zero _).symm
  | cons msg messages ih =>
    rw [prePass, ih, Inspection.step_latestEpoch, latestCommitEpoch_cons, max_assoc]

/-! ## The second loop -/

namespace Progress

variable {groupId : String} {config : M.JoinConfig} {latestEpoch : ℕ} {msg : MlsMessage}
  {l : Progress M} {s : Session M}

theorem stopIfFatal_readds (err : Error) (log : String) :
    (l.stopIfFatal err log).membersToReadd = l.membersToReadd := by
  unfold stopIfFatal stop
  split_ifs <;> rfl

theorem reload_readds : (reload env groupId msg l s).1.membersToReadd = l.membersToReadd := by
  unfold reload
  split_ifs with hloaded
  · rfl
  · split
    · rfl
    · exact stopIfFatal_readds _ _

theorem applyCommit_readds :
    (applyCommit env groupId msg l s).1.membersToReadd = l.membersToReadd := by
  unfold applyCommit
  split
  · rfl
  · split
    · rfl
    · exact stopIfFatal_readds _ _

theorem dropRemoved_readds : (dropRemoved msg l).membersToReadd = l.membersToReadd := by
  unfold dropRemoved
  split <;> rfl

theorem commitArm_readds :
    (commitArm env groupId msg l s).1.membersToReadd = l.membersToReadd := by
  unfold commitArm
  by_cases hgroup : l.mlsGroup.isSome
  · simp only [if_pos hgroup]
    split_ifs with hreload happly
    · exact reload_readds
    · rw [applyCommit_readds, reload_readds]
    · rw [dropRemoved_readds, applyCommit_readds, reload_readds]
  · rw [if_neg hgroup]
    exact dropRemoved_readds

theorem mem_proposalArm_readds (htype : msg.messageType = .proposal) (info : MemberInfo) :
    info ∈ (proposalArm latestEpoch msg l).membersToReadd ↔
      info ∈ l.membersToReadd ∨ ReaddsMember M.customProposal latestEpoch msg info := by
  unfold proposalArm ReaddsMember
  rcases hparse : M.customProposal msg.blob with _ | ⟨jid, id, _ | _⟩
  · simp
  · dsimp only
    by_cases hlater : latestEpoch < msg.epoch
    · have hmember : readdMember msg ⟨jid, id, .reAdd⟩ =
          { clientJid := jid.or (id.bind extractJidFromMemberId)
            mlsClientId := id
            mlsFingerprint := some msg.sender } := by
        cases jid <;> rfl
      simp [htype, hlater, hmember, or_comm]
    · simp [hlater]
  · simp

/-- **One message of the second loop.** -/
theorem mem_step_readds (info : MemberInfo) :
    info ∈ (l.step env groupId config latestEpoch msg s).1.membersToReadd ↔
      info ∈ l.membersToReadd ∨ ReaddsMember M.customProposal latestEpoch msg info := by
  have hother : msg.messageType ≠ .proposal →
      ¬ReaddsMember M.customProposal latestEpoch msg info := fun hne h => hne h.1
  unfold Progress.step
  cases htype : msg.messageType with
  | proposal => exact mem_proposalArm_readds htype info
  | commit =>
    have hno := hother (by simp [htype])
    simp only [commitArm_readds, hno, or_false]
  | welcome =>
    have hno := hother (by simp [htype])
    simp only [hno, or_false]
    unfold welcomeArm
    split <;> rfl
  | unknown =>
    have hno := hother (by simp [htype])
    simp only [hno, or_false]

end Progress

/-- **The second loop**, unless it is left with an error. -/
theorem mem_operationLoop_readds {groupId : String} {config : M.JoinConfig} {latestEpoch : ℕ}
    (messages : List MlsMessage) {l : Progress M} {s : Session M} (info : MemberInfo)
    (herror : (operationLoop env groupId config latestEpoch messages l s).1.error = none) :
    info ∈ (operationLoop env groupId config latestEpoch messages l s).1.membersToReadd ↔
      info ∈ l.membersToReadd ∨
        ∃ msg ∈ messages, ReaddsMember M.customProposal latestEpoch msg info := by
  induction messages generalizing l s with
  | nil => simp [operationLoop]
  | cons msg messages ih =>
    rw [operationLoop] at herror ⊢
    split_ifs at herror ⊢ with hleft
    · rw [herror] at hleft
      cases hleft
    · rw [ih herror, Progress.mem_step_readds, or_assoc]
      simp

/-! ## What is returned -/

theorem readds_of_report {config : M.JoinConfig} {i : AllMessagesOfGroupArgs × Session M}
    {r : GroupResult} (h : report env config i = some r) (herror : r.error = none) :
    (r.membersToReadd : Set MemberInfo) = readds M.customProposal ↑i.1.messages := by
  obtain ⟨opening, s', -, rfl⟩ := exists_loops_of_report h
  have hlatest : (prePass env i.1.messages (.start opening.mlsGroup) s').1.latestEpoch =
      latestCommitEpoch ↑i.1.messages := by
    rw [prePass_latestEpoch]
    exact Nat.zero_max _
  ext info
  have hmem : info ∈ (processMessages env config i.1 opening.mlsGroup s').1.membersToReadd ↔ _ :=
    mem_operationLoop_readds i.1.messages info herror
  rw [hlatest] at hmem
  refine hmem.trans ?_
  have hnone : info ∉ (∅ : Finset MemberInfo) := Finset.notMem_empty info
  exact or_iff_right hnone

/-- **The members to be added again** of every group whose batch ends without an error. They are the
same for every order of the messages, whatever the library accepts. -/
theorem membersToReadd_eq_readds (M : OpenMls) (env : Surroundings M) (config : M.JoinConfig)
    (groups : List AllMessagesOfGroupArgs) {s₀ s₁ : Session M} {result : ProcessAllMessagesResult}
    (h : (processAllMessages env config groups).run s₀ = .ok result s₁) :
    result.groupResults = (iterations env config groups s₀).filterMap (report env config) ∧
    ∀ i ∈ iterations env config groups s₀, ∀ r, report env config i = some r → r.error = none →
      (r.membersToReadd : Set MemberInfo) = readds M.customProposal ↑i.1.messages ∧
      ∀ (M' : OpenMls) (env' : Surroundings M') (config' : M'.JoinConfig)
        (i' : AllMessagesOfGroupArgs × Session M') (r' : GroupResult),
        M'.customProposal = M.customProposal → i'.1.messages.Perm i.1.messages →
          report env' config' i' = some r' → r'.error = none →
            r'.membersToReadd = r.membersToReadd := by
  refine ⟨groupResults_eq h, fun i _ r hr herror => ⟨readds_of_report hr herror, ?_⟩⟩
  intro M' env' config' i' r' hparse hperm hr' herror'
  have hmessages : (i'.1.messages : Multiset MlsMessage) = ↑i.1.messages :=
    Multiset.coe_eq_coe.mpr hperm
  have hsets : (r'.membersToReadd : Set MemberInfo) = r.membersToReadd := by
    rw [readds_of_report hr' herror', readds_of_report hr herror, hparse, hmessages]
  exact Finset.coe_injective hsets

/-! ### A member that asks to be added -/

/-- The message `9` is a custom ReAdd proposal of Bob. -/
@[reducible] def plainReadds : OpenMls :=
  { plain with
    customProposal := fun blob =>
      if blob = [9] then
        some { clientJid := none, mlsClientId := some "bob/2", proposalType := .reAdd }
      else none }

namespace Plain

/-- A custom ReAdd proposal. -/
def readdAt (epoch : ℕ) : MlsMessage where
  blob := [9]
  epoch := epoch
  sender := "2"
  messageType := .proposal

/-- What is reported of Bob. -/
def bobAgain : MemberInfo where
  clientJid := extractJidFromMemberId "bob/2"
  mlsClientId := some "bob/2"
  mlsFingerprint := some "2"

end Plain

open Plain in
/-- A proposal before the commit it is later than, and after it. -/
theorem membersToReadd_eq_bobAgain :
    let i : AllMessagesOfGroupArgs × Session plainReadds :=
      (batch [readdAt 2, commitAt 1], sessionAt 1 [] [])
    let i' : AllMessagesOfGroupArgs × Session plainReadds :=
      (batch [commitAt 1, readdAt 2], sessionAt 1 [] [])
    (({bobAgain} : Finset MemberInfo) : Set MemberInfo) =
      readds plainReadds.customProposal ↑i.1.messages ∧
    (report .calm () i').map GroupResult.membersToReadd =
      (report .calm () i).map GroupResult.membersToReadd := by
  intro i i'
  obtain ⟨result, s₁, hrun⟩ := exists_of_isOk
    (r := (processAllMessages (M := plainReadds) .calm () [i.1]).run i.2) (by decide +kernel)
  have hfound : (report .calm () i).map (fun r => (r.membersToReadd, r.error)) =
      some ({bobAgain}, none) := by decide +kernel
  have hfound' : (report .calm () i').map (fun r => (r.membersToReadd, r.error)) =
      some ({bobAgain}, none) := by decide +kernel
  obtain ⟨r, hreport, hr⟩ := Option.map_eq_some_iff.mp hfound
  obtain ⟨r', hreport', hr'⟩ := Option.map_eq_some_iff.mp hfound'
  obtain ⟨hbob, herror⟩ := Prod.mk.inj hr
  obtain ⟨-, herror'⟩ := Prod.mk.inj hr'
  obtain ⟨hreadds, hsame⟩ := (membersToReadd_eq_readds plainReadds .calm () [i.1] hrun).2 i
    List.mem_cons_self r hreport herror
  have hboth := hsame plainReadds .calm () i' r' rfl (List.Perm.swap _ _ _) hreport' herror'
  rw [hbob] at hreadds
  refine ⟨hreadds, ?_⟩
  rw [hreport', hreport]
  exact congrArg some hboth

end KChat.Mls
