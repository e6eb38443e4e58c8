import KChat.Lib.Prefixes
import KChat.Mls.Reports
import KChat.Mls.Rollback

/-!
# Members to be removed

The first loop notes the members that proposals want removed, with the epochs of the messages; after
a commit the second loop drops those that are gone.

* `lookup_eraseWhere`: entries that are erased from a map.
* `proposedRemoval`, `lastProposal`: what a message of the first loop proposes, and the epoch of the
  last message that does. **`lookup_prePass`**.
* `SeenGone`: a member is gone after a commit. **`lookup_progressAfter`**: who is left to be removed.
* `StoredAfter`: the stored group in the course of a batch. `FoundOut`: a member is not in it after a
  commit; **`mem_membersToRemove`**: who is returned.
* **`membersToRemove_sound_iff`**: whatever takes a noted member out of the group is followed by a
  return or by the discovery.
* **`membersToRemove_complete_iff`**.
-/

namespace KChat.Mls

open Lib OpenMls

/-! ## Maps -/

section maps

variable {κ β : Type} [DecidableEq κ]

theorem lookup_eraseAll (l : List κ) (m : AList fun _ : κ => β) (a : κ) :
    (l.foldl (fun m k => m.erase k) m).lookup a = if a ∈ l then none else m.lookup a := by
  induction l generalizing m with
  | nil => rfl
  | cons k l ih =>
    rw [List.foldl_cons, ih]
    by_cases hk : a = k
    · subst hk
      simp
    · simp [hk, AList.lookup_erase_ne hk]

/-- **The entries that fulfil `p` are erased.** -/
theorem lookup_eraseWhere (p : (Sigma fun _ : κ => β) → Bool) (m : AList fun _ : κ => β) (a : κ) :
    (((m.entries.filter p).map Sigma.fst).foldl (fun m k => m.erase k) m).lookup a =
      (m.lookup a).filter fun b => !p ⟨a, b⟩ := by
  have hmem : a ∈ (m.entries.filter p).map Sigma.fst ↔ ∃ b, m.lookup a = some b ∧ p ⟨a, b⟩ := by
    rw [List.mem_map]
    constructor
    · rintro ⟨⟨k, b⟩, hentry, rfl⟩
      obtain ⟨hentry, hp⟩ := List.mem_filter.mp hentry
      exact ⟨b, AList.mem_lookup_iff.mpr hentry, hp⟩
    · rintro ⟨b, hb, hp⟩
      exact ⟨⟨a, b⟩, List.mem_filter.mpr ⟨AList.mem_lookup_iff.mp hb, hp⟩, rfl⟩
  rw [lookup_eraseAll]
  cases hb : m.lookup a with
  | none => simp
  | some b =>
    by_cases hp : p ⟨a, b⟩
    · rw [if_pos (hmem.mpr ⟨b, hb, hp⟩)]
      show none = if !p ⟨a, b⟩ then some b else none
      rw [hp]
      rfl
    · have hnot : a ∉ (m.entries.filter p).map Sigma.fst := by
        intro h
        obtain ⟨b', hb', hp'⟩ := hmem.mp h
        obtain rfl := Option.some.inj (hb.symm.trans hb')
        exact hp hp'
      rw [if_neg hnot]
      show some b = if !p ⟨a, b⟩ then some b else none
      rw [Bool.not_eq_true] at hp
      rw [hp]
      rfl

end maps

variable {M : OpenMls} {env : Surroundings M}

/-! ## Members that are denoted -/

/-- **The entry denotes a member of the group**: by its identity or, where that is not given, by its
JID. -/
def Denotes (g : M.Group) (info : MemberInfo) : Prop :=
  match info.mlsClientId with
  | some id => ∃ c ∈ M.members g, M.identity c = some id
  | none => ∃ jid, info.clientJid = some jid ∧
    ∃ c ∈ M.members g, ∃ id, M.identity c = some id ∧ extractJidFromMemberId id = some jid

theorem mem_groupMemberIds {g : M.Group} {id : String} :
    id ∈ groupMemberIds g ↔ ∃ c ∈ M.members g, M.identity c = some id := by
  simp [groupMemberIds]

theorem mem_groupMemberJids {g : M.Group} {jid : String} : jid ∈ groupMemberJids g ↔
    ∃ c ∈ M.members g, ∃ id, M.identity c = some id ∧ extractJidFromMemberId id = some jid := by
  simp only [groupMemberJids, List.mem_toFinset, List.mem_filterMap]
  constructor
  · rintro ⟨id, ⟨c, hc, hid⟩, hjid⟩
    exact ⟨c, hc, id, hid, hjid⟩
  · rintro ⟨c, hc, id, hid, hjid⟩
    exact ⟨id, ⟨c, hc, hid⟩, hjid⟩

/-- An entry that says whom it is about. -/
def MemberInfo.Named (info : MemberInfo) : Prop := info.mlsClientId.isSome ∨ info.clientJid.isSome

theorem isGone_iff {g : M.Group} {info : MemberInfo} (h : info.Named) :
    Progress.isGone g info = true ↔ ¬Denotes g info := by
  obtain ⟨clientJid, mlsClientId, mlsFingerprint⟩ := info
  cases mlsClientId with
  | some id => simp [Progress.isGone, Denotes, mem_groupMemberIds]
  | none =>
    cases clientJid with
    | some jid => simp [Progress.isGone, Denotes, mem_groupMemberJids]
    | none => simp [MemberInfo.Named] at h

/-! ## The first loop -/

def removalOfProposal (g : M.Group) (msg : MlsMessage) (proposal : QueuedProposal) :
    Option MemberInfo :=
  if proposal.proposal = .remove ∧ proposal.sender ∈ groupMemberIds g then
    some { clientJid := extractJidFromMemberId proposal.sender
           mlsClientId := some proposal.sender
           mlsFingerprint := some msg.sender }
  else none

/-- The member that a custom proposal wants removed. -/
def removalOfCustomProposal (g : M.Group) (msg : MlsMessage) : Option MemberInfo :=
  match M.customProposal msg.blob with
  | some { clientJid := some clientJid, mlsClientId := _, proposalType := .remove } =>
    if clientJid ∈ groupMemberJids g then
      some { clientJid := some clientJid, mlsClientId := none, mlsFingerprint := none }
    else none
  | _ => none

variable (env) in
/-- The member of the group that a message of the first loop wants removed. -/
def proposedRemoval (g : M.Group) (msg : MlsMessage) (s : Session M) : Option MemberInfo :=
  match msg.messageType with
  | .proposal =>
    match (processProposalMessage (autocommit env) msg.blob).run ⟨g, s⟩ with
    | .ok proposal _ => removalOfProposal g msg proposal
    | .error _ _ => removalOfCustomProposal g msg
  | _ => none

variable (env) in
def inspected (g : M.Group) (msg : MlsMessage) (s : Session M) : Session M :=
  match msg.messageType with
  | .proposal => (final ((processProposalMessage (autocommit env) msg.blob).run ⟨g, s⟩)).world
  | _ => s

variable (env) in
/-- **The epoch of the last message that wants a member removed.** -/
def lastProposal (g : M.Group) (info : MemberInfo) : List MlsMessage → Session M → Option ℕ
  | [], _ => none
  | msg :: messages, s =>
    (lastProposal g info messages (inspected env g msg s)).or
      (if proposedRemoval env g msg s = some info then some msg.epoch else none)

theorem removalOfProposal_named {g : M.Group} {msg : MlsMessage} {proposal : QueuedProposal}
    {info : MemberInfo} (h : removalOfProposal g msg proposal = some info) : info.Named := by
  unfold removalOfProposal at h
  split_ifs at h
  obtain rfl := Option.some.inj h
  exact .inl rfl

theorem removalOfCustomProposal_named {g : M.Group} {msg : MlsMessage} {info : MemberInfo}
    (h : removalOfCustomProposal g msg = some info) : info.Named := by
  unfold removalOfCustomProposal at h
  split at h
  · split_ifs at h
    obtain rfl := Option.some.inj h
    exact .inr rfl
  · cases h

theorem proposedRemoval_named {g : M.Group} {msg : MlsMessage} {s : Session M} {info : MemberInfo}
    (h : proposedRemoval env g msg s = some info) : info.Named := by
  unfold proposedRemoval at h
  split at h
  · split at h
    · exact removalOfProposal_named h
    · exact removalOfCustomProposal_named h
  · cases h

theorem lastProposal_named {g : M.Group} {info : MemberInfo} {messages : List MlsMessage}
    {s : Session M} {e : ℕ} (h : lastProposal env g info messages s = some e) : info.Named := by
  induction messages generalizing s with
  | nil => cases h
  | cons msg messages ih =>
    rw [lastProposal, Option.or_eq_some_iff] at h
    rcases h with h | ⟨-, h⟩
    · exact ih h
    · split_ifs at h with hremoval
      exact proposedRemoval_named hremoval

def Inspection.noteRemoval (p : Inspection M) (msg : MlsMessage) (removal : Option MemberInfo) :
    Removals :=
  removal.elim p.membersToRemove fun info => p.membersToRemove.insert info msg.epoch

/-- The first loop looks at the group `g`, whose members it collects at most once. -/
structure Inspects (g : M.Group) (p : Inspection M) : Prop where
  group : p.mlsGroup = some g
  sets : ∀ sets, p.groupMemberSets = some sets → sets = (groupMemberIds g, groupMemberJids g)

namespace Inspects

variable {g : M.Group} {p : Inspection M} {msg : MlsMessage}

theorem start (g : M.Group) : Inspects g (.start (some g)) where
  group := rfl
  sets _ h := nomatch h

theorem memberSets (h : Inspects g p) :
    p.memberSets g = (groupMemberIds g, groupMemberJids g) := by
  unfold Inspection.memberSets
  cases hsets : p.groupMemberSets with
  | none => rfl
  | some sets => exact h.sets sets hsets

theorem noteProposal (h : Inspects g p) (proposal : QueuedProposal) :
    Inspects g (p.noteProposal g msg proposal) ∧ (p.noteProposal g msg proposal).membersToRemove =
      p.noteRemoval msg (removalOfProposal g msg proposal) := by
  unfold Inspection.noteProposal Inspection.noteRemoval removalOfProposal
  by_cases hremove : proposal.proposal = .remove
  · simp only [hremove, if_true, true_and, h.memberSets]
    split_ifs
    · exact ⟨⟨h.group, fun sets hs => (Option.some.inj hs).symm⟩, rfl⟩
    · exact ⟨⟨h.group, fun sets hs => (Option.some.inj hs).symm⟩, rfl⟩
  · simp only [hremove, if_false, false_and]
    exact ⟨h, rfl⟩

theorem noteCustomProposal (h : Inspects g p) :
    Inspects g (p.noteCustomProposal g msg) ∧ (p.noteCustomProposal g msg).membersToRemove =
      p.noteRemoval msg (removalOfCustomProposal g msg) := by
  unfold Inspection.noteCustomProposal Inspection.noteRemoval removalOfCustomProposal
  rcases M.customProposal msg.blob with _ | ⟨_ | jid, id, _ | _⟩
  · exact ⟨h, rfl⟩
  · exact ⟨h, rfl⟩
  · exact ⟨h, rfl⟩
  · exact ⟨h, rfl⟩
  · simp only [h.memberSets]
    split_ifs
    · exact ⟨⟨h.group, fun sets hs => (Option.some.inj hs).symm⟩, rfl⟩
    · exact ⟨⟨h.group, fun sets hs => (Option.some.inj hs).symm⟩, rfl⟩

theorem step (hM : M.StoresGroups) (h : Inspects g p) (s : Session M) :
    Inspects g (p.step env msg s).1 ∧
    (p.step env msg s).1.membersToRemove = p.noteRemoval msg (proposedRemoval env g msg s) ∧
    (p.step env msg s).2 = inspected env g msg s := by
  unfold Inspection.step proposedRemoval inspected
  dsimp only
  generalize hp' : (if p.latestEpoch < msg.epoch ∧ msg.messageType = .commit then
    { p with latestEpoch := msg.epoch } else p) = p'
  have h' : Inspects g p' := by
    rw [← hp']
    split_ifs
    · exact ⟨h.group, h.sets⟩
    · exact h
  have hremovals : p'.membersToRemove = p.membersToRemove := by
    rw [← hp']
    split_ifs <;> rfl
  rw [h'.group]
  cases htype : msg.messageType with
  | proposal =>
    dsimp only
    have hlooked := processProposalMessage_looked env hM msg.blob ⟨g, s⟩
    have hnoted : ∀ removal, Inspection.noteRemoval { p' with mlsGroup := some g } msg removal =
        p.noteRemoval msg removal := by
      intro removal
      unfold Inspection.noteRemoval
      rw [← hremovals]
    have hgroup : Inspects g { p' with mlsGroup := some g } := ⟨rfl, h'.sets⟩
    cases hrun : (processProposalMessage (autocommit env) msg.blob).run ⟨g, s⟩ with
    | ok proposal t =>
      have hself : t.self = g := ((wp_of_ok hrun).mp hlooked).1
      dsimp only [final]
      rw [hself, ← hnoted]
      exact ⟨(hgroup.noteProposal proposal).1, (hgroup.noteProposal proposal).2, rfl⟩
    | error e t =>
      have hself : t.self = g := ((wp_of_error hrun).mp hlooked).1
      dsimp only [final]
      rw [hself, ← hnoted]
      exact ⟨hgroup.noteCustomProposal.1, hgroup.noteCustomProposal.2, rfl⟩
  | welcome => exact ⟨h', hremovals, rfl⟩
  | commit => exact ⟨h', hremovals, rfl⟩
  | unknown => exact ⟨h', hremovals, rfl⟩

end Inspects

theorem lookup_noteRemoval (p : Inspection M) (msg : MlsMessage) (removal : Option MemberInfo)
    (info : MemberInfo) : (p.noteRemoval msg removal).lookup info =
      (if removal = some info then some msg.epoch else none).or (p.membersToRemove.lookup info) := by
  unfold Inspection.noteRemoval
  cases removal with
  | none => simp
  | some other =>
    by_cases hother : info = other
    · subst hother
      simp [AList.lookup_insert]
    · have hne : some other ≠ some info := fun h => hother (Option.some.inj h).symm
      simp [AList.lookup_insert_ne hother, hne]

/-- **Whom the first loop notes**, with the epoch of the last message that is about them. -/
theorem lookup_prePass (hM : M.StoresGroups) {g : M.Group} {p : Inspection M} (h : Inspects g p)
    (messages : List MlsMessage) (s : Session M) (info : MemberInfo) :
    (prePass env messages p s).1.membersToRemove.lookup info =
      (lastProposal env g info messages s).or (p.membersToRemove.lookup info) := by
  induction messages generalizing p s with
  | nil => rfl
  | cons msg messages ih =>
    obtain ⟨hnext, hremovals, hsession⟩ : Inspects g (p.step env msg s).1 ∧
        (p.step env msg s).1.membersToRemove = p.noteRemoval msg (proposedRemoval env g msg s) ∧
        (p.step env msg s).2 = inspected env g msg s := h.step hM s
    rw [prePass, ih hnext, hremovals, lookup_noteRemoval, hsession, lastProposal, Option.or_assoc]

/-! ## The second loop -/

namespace Progress

variable {groupId : String} {config : M.JoinConfig} {latestEpoch : ℕ} {msg : MlsMessage}
  {l : Progress M} {s : Session M}

theorem stopIfFatal_eq {err : Error} {log : String} (h : (l.stopIfFatal err log).error = none) :
    l.stopIfFatal err log = l :=
  stopIfFatal_of_not (stopIfFatal_error_eq_none.mp h).1

theorem reload_membersToRemove (h : (reload env groupId msg l s).1.error = none) :
    (reload env groupId msg l s).1.membersToRemove = l.membersToRemove := by
  by_cases hloaded : l.commitGroupLoaded
  · rw [reload_of_loaded hloaded]
  · cases hrun : (loadGroupWithEpochMessageSecrets env groupId [msg.epoch]).run s with
    | ok g t => rw [reload_of_ok hloaded hrun]
    | error e t =>
      rw [reload_of_error hloaded hrun] at h ⊢
      rw [stopIfFatal_eq h]

theorem applyCommit_membersToRemove (h : (applyCommit env groupId msg l s).1.error = none) :
    (applyCommit env groupId msg l s).1.membersToRemove = l.membersToRemove := by
  cases hg : l.mlsGroup with
  | none => rw [applyCommit_of_none hg]
  | some g =>
    cases hrun : (transactionOn env (processOperationMessage env msg.blob)).run ⟨g, s⟩ with
    | ok r t => rw [applyCommit_of_ok hg hrun]
    | error e t =>
      rw [applyCommit_of_error hg hrun] at h ⊢
      rw [stopIfFatal_eq h]

/-- The member is seen to be gone from the group in memory. -/
def seesGone (o : Option M.Group) (msg : MlsMessage) (info : MemberInfo) (e : ℕ) : Bool :=
  o.any fun g => decide (e ≤ msg.epoch) && isGone g info

theorem seesGone_iff {o : Option M.Group} {info : MemberInfo} {e : ℕ} (h : info.Named) :
    seesGone o msg info e = true ↔ e ≤ msg.epoch ∧ ∃ g, o = some g ∧ ¬Denotes g info := by
  unfold seesGone
  cases o with
  | none => simp
  | some g => simp [isGone_iff h]

theorem lookup_dropRemoved (msg : MlsMessage) (l : Progress M) (info : MemberInfo) :
    (dropRemoved msg l).membersToRemove.lookup info =
      (l.membersToRemove.lookup info).filter fun e => !seesGone l.mlsGroup msg info e := by
  unfold dropRemoved seesGone
  cases l.mlsGroup with
  | none => cases l.membersToRemove.lookup info <;> rfl
  | some g => exact lookup_eraseWhere _ _ _

/-- **One message of the second loop** drops those that are seen to be gone after a commit. -/
theorem lookup_step (h : (l.step env groupId config latestEpoch msg s).1.error = none)
    (info : MemberInfo) :
    (l.step env groupId config latestEpoch msg s).1.membersToRemove.lookup info =
      (l.membersToRemove.lookup info).filter fun e => !(decide (msg.messageType = .commit) &&
        seesGone (l.step env groupId config latestEpoch msg s).1.mlsGroup msg info e) := by
  have hkept : ∀ o : Option ℕ, o = o.filter fun _ => true := by
    intro o
    cases o <;> rfl
  unfold Progress.step at h ⊢
  cases htype : msg.messageType with
  | welcome =>
    simp only [welcomeArm]
    split <;> exact hkept _
  | proposal =>
    have hsame : (proposalArm latestEpoch msg l).membersToRemove = l.membersToRemove := by
      unfold proposalArm
      split
      · split_ifs <;> rfl
      · rfl
    dsimp only
    rw [hsame]
    exact hkept _
  | unknown => exact hkept _
  | commit =>
    rw [htype] at h
    dsimp only at h ⊢
    rw [decide_eq_true rfl]
    simp only [Bool.true_and]
    rcases commitArm_cases h with ⟨hnone, heq⟩ | ⟨hg, hreload, happly⟩
    · rw [heq, dropRemoved_mlsGroup]
      exact lookup_dropRemoved msg l info
    · rw [commitArm_of_continue hg hreload happly, dropRemoved_mlsGroup, lookup_dropRemoved,
        applyCommit_membersToRemove happly, reload_membersToRemove hreload]

end Progress

variable (env) in
/-- The epoch a member is noted with that is to be removed from the group a batch begins with. -/
def notedEpoch (mlsGroup : Option M.Group) (messages : List MlsMessage) (s : Session M)
    (info : MemberInfo) : Option ℕ :=
  mlsGroup.bind fun g => lastProposal env g info messages s

variable (env) in
/-- **The member is seen to be gone** after a commit of its epoch or a later one. -/
def SeenGone (config : M.JoinConfig) (args : AllMessagesOfGroupArgs) (mlsGroup : Option M.Group)
    (s : Session M) (messages : List MlsMessage) (info : MemberInfo) (e : ℕ) : Prop :=
  ∃ front msg g, front ++ [msg] <+: messages ∧ msg.messageType = .commit ∧ e ≤ msg.epoch ∧
    (progressAfter env config args mlsGroup s (front ++ [msg])).1.mlsGroup = some g ∧
    ¬Denotes g info

theorem lookup_prePass_start (hM : M.StoresGroups) (mlsGroup : Option M.Group)
    (messages : List MlsMessage) (s : Session M) (info : MemberInfo) :
    (prePass env messages (.start mlsGroup) s).1.membersToRemove.lookup info =
      notedEpoch env mlsGroup messages s info := by
  cases mlsGroup with
  | some g =>
    rw [lookup_prePass hM (.start g)]
    exact Option.or_none
  | none =>
    have hnone : ∀ (messages : List MlsMessage) (p : Inspection M) (s : Session M),
        p.mlsGroup = none → (prePass env messages p s).1.membersToRemove = p.membersToRemove := by
      intro messages
      induction messages with
      | nil => exact fun _ _ _ => rfl
      | cons msg messages ih =>
        intro p s hp
        obtain ⟨hgroup, -⟩ := p.step_looked env hM msg s
        rw [prePass, ih _ _ (hgroup.trans hp)]
        unfold Inspection.step
        dsimp only
        split_ifs
        · cases msg.messageType <;> simp [hp]
        · cases msg.messageType <;> simp [hp]
    rw [hnone messages _ s rfl]
    rfl

theorem named_of_notedEpoch {mlsGroup : Option M.Group} {messages : List MlsMessage}
    {s : Session M} {info : MemberInfo} {e : ℕ}
    (h : notedEpoch env mlsGroup messages s info = some e) : info.Named := by
  obtain ⟨g, -, hlast⟩ := Option.bind_eq_some_iff.mp h
  exact lastProposal_named hlast

/-- **Who is left to be removed**: the members that were noted and not seen to be gone. -/
theorem lookup_progressAfter (hM : M.StoresGroups) {config : M.JoinConfig}
    {args : AllMessagesOfGroupArgs} {mlsGroup : Option M.Group} {s : Session M}
    (messages : List MlsMessage)
    (herror : (progressAfter env config args mlsGroup s messages).1.error = none)
    (info : MemberInfo) (e : ℕ) :
    (progressAfter env config args mlsGroup s messages).1.membersToRemove.lookup info = some e ↔
      notedEpoch env mlsGroup args.messages s info = some e ∧
        ¬SeenGone env config args mlsGroup s messages info e := by
  induction messages using List.reverseRecOn with
  | nil =>
    rw [progressAfter, operationLoop, Progress.start, lookup_prePass_start hM]
    refine ⟨fun h => ⟨h, ?_⟩, And.left⟩
    rintro ⟨front, msg, g, hbegins, -⟩
    simp at hbegins
  | append_singleton messages msg ih =>
    have hfront := progressAfter_error herror
    have hstep : progressAfter env config args mlsGroup s (messages ++ [msg]) =
        (progressAfter env config args mlsGroup s messages).1.step env args.groupId config
          (prePass env args.messages (.start mlsGroup) s).1.latestEpoch msg
          (progressAfter env config args mlsGroup s messages).2 := progressAfter_concat hfront
    have hlast : SeenGone env config args mlsGroup s (messages ++ [msg]) info e ↔
        SeenGone env config args mlsGroup s messages info e ∨
        (msg.messageType = .commit ∧ e ≤ msg.epoch ∧ ∃ g,
          (progressAfter env config args mlsGroup s (messages ++ [msg])).1.mlsGroup = some g ∧
          ¬Denotes g info) := by
      constructor
      · rintro ⟨front, c, g, hbegins, htype, hepoch, hg, hgone⟩
        rcases List.prefix_concat_iff.mp hbegins with heq | hbegins
        · obtain ⟨rfl, hc⟩ := List.append_inj' heq rfl
          obtain rfl := List.singleton_injective hc
          exact .inr ⟨htype, hepoch, g, hg, hgone⟩
        · exact .inl ⟨front, c, g, hbegins, htype, hepoch, hg, hgone⟩
      · rintro (⟨front, c, g, hbegins, h⟩ | ⟨htype, hepoch, g, hg, hgone⟩)
        · exact ⟨front, c, g, hbegins.trans (List.prefix_append _ _), h⟩
        · exact ⟨messages, msg, g, List.prefix_refl _, htype, hepoch, hg, hgone⟩
    rw [hlast, not_or, ← and_assoc, ← ih hfront]
    rw [hstep] at herror ⊢
    rw [Progress.lookup_step herror, Option.filter_eq_some_iff]
    refine and_congr_right fun hlookup => ?_
    have hnamed : info.Named := named_of_notedEpoch ((ih hfront).mp hlookup).1
    rw [Bool.not_eq_true', Bool.and_eq_false_iff, decide_eq_false_iff_not, ← Bool.not_eq_true,
      Progress.seesGone_iff hnamed]
    exact not_and_or.symm

/-! ## The group in memory -/

section memory

variable (hM : M.StoresGroups) {config : M.JoinConfig} {args : AllMessagesOfGroupArgs}
include hM

/-- A batch that has its group in memory goes on with it. -/
theorem step_held {latestEpoch : ℕ} {msg : MlsMessage} {l : Progress M} {s : Session M} {g : M.Group}
    (hwelcome : ∀ w, Joins env config msg s w → M.groupId w = args.groupId)
    (hg : l.mlsGroup = some g) (hid : M.groupId g = args.groupId)
    (herror : (l.step env args.groupId config latestEpoch msg s).1.error = none) :
    ∃ g', (l.step env args.groupId config latestEpoch msg s).1.mlsGroup = some g' ∧
      M.groupId g' = args.groupId := by
  unfold Progress.step at herror ⊢
  cases htype : msg.messageType with
  | welcome =>
    dsimp only
    cases hrun : (transaction env (processWelcome env msg.blob config)).run s with
    | ok w t =>
      rw [Progress.welcomeArm_of_ok hrun]
      exact ⟨w, rfl, hwelcome w ⟨htype, t, hrun⟩⟩
    | error text t =>
      rw [Progress.welcomeArm_of_error hrun]
      exact ⟨g, hg, hid⟩
  | proposal =>
    dsimp only
    rw [Progress.proposalArm_mlsGroup]
    exact ⟨g, hg, hid⟩
  | unknown => exact ⟨g, hg, hid⟩
  | commit =>
    rw [htype] at herror
    dsimp only at herror ⊢
    rcases Progress.commitArm_cases herror with ⟨hnone, -⟩ | ⟨hsome, hreload, happly⟩
    · rw [hg] at hnone
      cases hnone
    rw [Progress.commitArm_of_continue hsome hreload happly, Progress.dropRemoved_mlsGroup]
    have hreloaded : ∃ g', (l.reload env args.groupId msg s).1.mlsGroup = some g' ∧
        M.groupId g' = args.groupId := by
      by_cases hloaded : l.commitGroupLoaded
      · rw [Progress.reload_of_loaded hloaded]
        exact ⟨g, hg, hid⟩
      have hspec := load_spec env hM args.groupId [msg.epoch] s
      cases hrun : (loadGroupWithEpochMessageSecrets env args.groupId [msg.epoch]).run s with
      | ok g' t =>
        rw [Progress.reload_of_ok hloaded hrun]
        exact ⟨g', rfl, hM.groupId ((wp_of_ok hrun).mp hspec).1⟩
      | error e t =>
        rw [Progress.reload_of_error hloaded hrun, Progress.stopIfFatal_mlsGroup]
        exact ⟨g, hg, hid⟩
    obtain ⟨g', hg', hid'⟩ := hreloaded
    have hspec := transactionOn_spec env (processOperationMessage_faithful env hM msg.blob)
      ⟨g', (l.reload env args.groupId msg s).2⟩
    cases hrun : (transactionOn env (processOperationMessage env msg.blob)).run
        ⟨g', (l.reload env args.groupId msg s).2⟩ with
    | ok r t =>
      rw [Progress.applyCommit_of_ok hg' hrun]
      exact ⟨t.self, rfl, ((wp_of_ok hrun).mp hspec).1.trans hid'⟩
    | error text t =>
      rw [Progress.applyCommit_of_error hg' hrun, Progress.stopIfFatal_mlsGroup]
      exact ⟨t.self, rfl, ((wp_of_error hrun).mp hspec).1.trans hid'⟩

theorem progressAfter_held (hof : OfGroup env config args) {mlsGroup : Option M.Group} {g : M.Group}
    {s : Session M} (hg : mlsGroup = some g) (hid : M.groupId g = args.groupId)
    {messages : List MlsMessage} (hmessages : messages <+: args.messages)
    (herror : (progressAfter env config args mlsGroup s messages).1.error = none) :
    ∃ g', (progressAfter env config args mlsGroup s messages).1.mlsGroup = some g' ∧
      M.groupId g' = args.groupId := by
  induction messages using List.reverseRecOn with
  | nil =>
    have hkept : ∀ (messages : List MlsMessage) (p : Inspection M) (s : Session M),
        (prePass env messages p s).1.mlsGroup = p.mlsGroup := by
      intro messages
      induction messages with
      | nil => exact fun _ _ => rfl
      | cons msg messages ih =>
        intro p s
        rw [prePass, ih, (p.step_looked env hM msg s).1]
    exact ⟨g, (hkept args.messages (.start mlsGroup) s).trans hg, hid⟩
  | append_singleton messages msg ih =>
    have hmsg : msg ∈ args.messages := hmessages.subset (by simp)
    obtain ⟨g', hg', hid'⟩ :=
      ih ((List.prefix_append _ _).trans hmessages) (progressAfter_error herror)
    have hstep : progressAfter env config args mlsGroup s (messages ++ [msg]) = _ :=
      progressAfter_concat (progressAfter_error herror)
    rw [hstep] at herror ⊢
    exact step_held hM (fun w hw => hof msg hmsg _ w hw) hg' hid' herror

end memory

/-! ## What is returned -/

variable (env) in
/-- A message of the first loop wants the member removed; `e` is the epoch of the last one. -/
def RemovalNoted (i : AllMessagesOfGroupArgs × Session M) (info : MemberInfo) (e : ℕ) : Prop :=
  ∃ opening s', (openGroup env i.1).run i.2 = .ok (some opening) s' ∧
    notedEpoch env opening.mlsGroup i.1.messages s' info = some e

variable (env) in
def closing (config : M.JoinConfig) (i : AllMessagesOfGroupArgs × Session M) : Session M :=
  final ((processGroup env config i.1).run i.2)

variable (env) in
/-- **The stored group in the course of a batch**: after the messages of `front` it fulfils `P`. -/
def StoredAfter (config : M.JoinConfig) (i : AllMessagesOfGroupArgs × Session M)
    (P : M.Group → Prop) (front : List MlsMessage) : Prop :=
  ∃ opening s' g, (openGroup env i.1).run i.2 = .ok (some opening) s' ∧
    M.stored (progressAfter env config i.1 opening.mlsGroup s' front).2.store i.1.groupId = some g ∧
    P g

variable (env) in
/-- **The member is found out to be gone**: after a commit that is tagged with the epoch `e` or a
later one it is not in the stored group. -/
def FoundOut (config : M.JoinConfig) (i : AllMessagesOfGroupArgs × Session M) (info : MemberInfo)
    (e : ℕ) : Prop :=
  ∃ front msg, front ++ [msg] <+: i.1.messages ∧ msg.messageType = .commit ∧ e ≤ msg.epoch ∧
    ¬StoredAfter env config i (Denotes · info) (front ++ [msg])

variable (env) in
/-- **A batch without surprises**: its Welcomes are for its group, and no commit is undone quietly. -/
structure Steady (config : M.JoinConfig) (i : AllMessagesOfGroupArgs × Session M) : Prop where
  welcomes : OfGroup env config i.1
  commits : ∀ msg l s, Reaches env config i msg l s → ¬BreaksSync env i.1.groupId msg l s

section returned

variable {config : M.JoinConfig} {i : AllMessagesOfGroupArgs × Session M} {opening : Opening M}
  {s' : Session M} {info : MemberInfo}

theorem storedAfter_of_open (hopen : (openGroup env i.1).run i.2 = .ok (some opening) s')
    {P : M.Group → Prop} {front : List MlsMessage} : StoredAfter env config i P front ↔
      ∃ g, M.stored (progressAfter env config i.1 opening.mlsGroup s' front).2.store
        i.1.groupId = some g ∧ P g := by
  constructor
  · rintro ⟨opening', s'', g, hopen', h⟩
    rw [hopen] at hopen'
    cases hopen'
    exact ⟨g, h⟩
  · rintro ⟨g, h⟩
    exact ⟨opening, s', g, hopen, h⟩

theorem removalNoted_of_open (hopen : (openGroup env i.1).run i.2 = .ok (some opening) s') {e : ℕ} :
    RemovalNoted env i info e ↔ notedEpoch env opening.mlsGroup i.1.messages s' info = some e := by
  constructor
  · rintro ⟨opening', s'', hopen', h⟩
    rw [hopen] at hopen'
    cases hopen'
    exact h
  · exact fun h => ⟨opening, s', hopen, h⟩

/-- In the end the stored group is the one after the last message. -/
theorem storedAfter_messages (hopen : (openGroup env i.1).run i.2 = .ok (some opening) s')
    {g : M.Group} (hg : M.stored (closing env config i).store i.1.groupId = some g)
    {P : M.Group → Prop} : StoredAfter env config i P i.1.messages ↔ P g := by
  have hrun : (processGroup env config i.1).run i.2 = .ok _ _ := run_bind_ok hopen
  have hclosing : (closing env config i).store =
      (progressAfter env config i.1 opening.mlsGroup s' i.1.messages).2.store := by
    unfold closing
    rw [hrun]
    rfl
  rw [storedAfter_of_open hopen, ← hclosing, hg]
  simp

theorem denotes_of_proposedRemoval {g : M.Group} {msg : MlsMessage} {s : Session M}
    (h : proposedRemoval env g msg s = some info) : Denotes g info := by
  unfold proposedRemoval at h
  split at h
  · split at h
    · unfold removalOfProposal at h
      split_ifs at h with hmember
      obtain rfl := Option.some.inj h
      exact mem_groupMemberIds.mp hmember.2
    · unfold removalOfCustomProposal at h
      split at h
      · split_ifs at h with hmember
        obtain rfl := Option.some.inj h
        exact ⟨_, rfl, mem_groupMemberJids.mp hmember⟩
      · cases h
  · cases h

/-- Who is noted is a member of the group the batch begins with. -/
theorem denotes_of_lastProposal {g : M.Group} {messages : List MlsMessage} {s : Session M} {e : ℕ}
    (h : lastProposal env g info messages s = some e) : Denotes g info := by
  induction messages generalizing s with
  | nil => cases h
  | cons msg messages ih =>
    rw [lastProposal, Option.or_eq_some_iff] at h
    rcases h with h | ⟨-, h⟩
    · exact ih h
    · split_ifs at h with hremoval
      exact denotes_of_proposedRemoval hremoval

variable (hM : M.StoresGroups) (halone : ∀ t, env.others t = []) (hsteady : Steady env config i)
  (hopen : (openGroup env i.1).run i.2 = .ok (some opening) s')
include hM halone hsteady hopen

/-- **The group in memory is the stored one** in the course of a batch without surprises. -/
theorem exists_held {g₀ : M.Group} (hopening : opening.mlsGroup = some g₀)
    {front : List MlsMessage} (hfront : front <+: i.1.messages)
    (herror : (progressAfter env config i.1 opening.mlsGroup s' front).1.error = none) :
    ∃ g, (progressAfter env config i.1 opening.mlsGroup s' front).1.mlsGroup = some g ∧
      ∀ P, StoredAfter env config i P front ↔ P g := by
  obtain ⟨hid₀, -⟩ := (wp_of_ok hopen).mp (openGroup_inSync hM i.1 i.2) opening rfl
  have hsync := progressAfter_inSync hM halone config hopen (fun f x hf hferr =>
    hsteady.commits x _ _ ⟨opening, s', f, hopen, hf.trans hfront, rfl, hferr⟩) herror
  obtain ⟨g, hg, hid⟩ :=
    progressAfter_held hM hsteady.welcomes hopening (hid₀ g₀ hopening) hfront herror
  have hstored := hsync g hg
  rw [Synced, hid] at hstored
  refine ⟨g, hg, fun P => ?_⟩
  rw [storedAfter_of_open hopen, hstored]
  simp

/-- Whom the second loop sees to be gone is found out. -/
theorem seenGone_iff {g₀ : M.Group} (hopening : opening.mlsGroup = some g₀) {e : ℕ}
    (herror : (progressAfter env config i.1 opening.mlsGroup s' i.1.messages).1.error = none) :
    SeenGone env config i.1 opening.mlsGroup s' i.1.messages info e ↔
      FoundOut env config i info e := by
  refine exists_congr fun front => exists_congr fun msg => ?_
  by_cases hpre : front ++ [msg] <+: i.1.messages
  · have herr : (progressAfter env config i.1 opening.mlsGroup s' (front ++ [msg])).1.error =
        none := by
      obtain ⟨back, hback⟩ := id hpre
      rw [← hback] at herror
      exact progressAfter_error herror
    obtain ⟨g, hg, hstored⟩ := exists_held hM halone hsteady hopen hopening hpre herr
    rw [hg, hstored]
    constructor
    · rintro ⟨g', -, htype, hepoch, hg', hgone⟩
      cases hg'
      exact ⟨hpre, htype, hepoch, hgone⟩
    · rintro ⟨-, htype, hepoch, hgone⟩
      exact ⟨g, hpre, htype, hepoch, rfl, hgone⟩
  · constructor
    · rintro ⟨g, h, -⟩
      exact absurd h hpre
    · rintro ⟨h, -⟩
      exact absurd h hpre

omit hopen in
/-- **The members that are returned**: those that were noted and not found out to be gone. -/
theorem mem_membersToRemove {r : GroupResult} (h : report env config i = some r)
    (herror : r.error = none) (info : MemberInfo) :
    info ∈ r.membersToRemove ↔ ∃ e, RemovalNoted env i info e ∧ ¬FoundOut env config i info e := by
  obtain ⟨opening, s', hopen, rfl⟩ := exists_loops_of_report h
  show info ∈ AList.keys _ ↔ _
  rw [← AList.mem_keys, ← AList.lookup_isSome, Option.isSome_iff_exists]
  refine exists_congr fun e => ?_
  rw [removalNoted_of_open hopen]
  refine (lookup_progressAfter hM i.1.messages herror info e).trans (and_congr_right fun hnoted => ?_)
  obtain ⟨g₀, hopening, -⟩ := Option.bind_eq_some_iff.mp hnoted
  exact not_congr (seenGone_iff hM halone hsteady hopen hopening herror)

omit hsteady in
theorem storedAfter_nil_of_noted {e : ℕ} (hnoted : RemovalNoted env i info e) :
    StoredAfter env config i (Denotes · info) [] := by
  rw [removalNoted_of_open hopen] at hnoted
  obtain ⟨g₀, hopening, hlast⟩ := Option.bind_eq_some_iff.mp hnoted
  obtain ⟨hid₀, -⟩ := (wp_of_ok hopen).mp (openGroup_inSync hM i.1 i.2) opening rfl
  have hsync := progressAfter_nil_inSync hM halone config hopen
  have hgroup : (progressAfter env config i.1 opening.mlsGroup s' []).1.mlsGroup = some g₀ :=
    (prePass_keeps hM halone i.1.messages (.start opening.mlsGroup) s').1.trans hopening
  have hstored : M.stored _ (M.groupId g₀) = some g₀ := hsync g₀ hgroup
  rw [hid₀ g₀ hopening] at hstored
  exact (storedAfter_of_open hopen).mpr ⟨g₀, hstored, denotes_of_lastProposal hlast⟩

end returned

def IsMember (g : M.Group) (id : String) : Prop := ∃ c ∈ M.members g, M.identity c = some id

variable (M) in
/-- **Members**: who is found at a leaf is listed. -/
def OpenMls.ListsMembers : Prop := ∀ g leaf c, M.member g leaf = some c → c ∈ M.members g

/-- **A group accepts a message as the Remove proposal of a client**, while nothing fails. -/
def AcceptsRemoval (g : M.Group) (s : Session M) (msg : MlsMessage) (sender : String) : Prop :=
  ∃ proposal t, (processProposalMessage (autocommit .calm) msg.blob).run ⟨g, s⟩ = .ok proposal t ∧
    proposal.proposal = .remove ∧ proposal.sender = sender

theorem processProposalMessage_sender (hM : M.StoresGroups) (hmembers : M.ListsMembers)
    (message : Bytes) (s : Owning M.Group (Session M)) :
    wp (processProposalMessage (autocommit env) message) s
      (fun proposal _ => IsMember s.self proposal.sender) fun _ _ => True := by
  rw [processProposalMessage, wp_bind]
  refine wp_ofResult (fun message _ => ?_) fun _ _ => trivial
  rw [wp_bind, wp_mapError, wp_autocommit, wp_call]
  have hreads := hM.processMessage message (env.fault s.world.time)
    ⟨s.self, (s.world.await env).store⟩
  cases hrun : (M.processMessage message (env.fault s.world.time)).run
      ⟨s.self, (s.world.await env).store⟩ with
  | error e t => exact (wp_of_error hrun).mpr trivial
  | ok processed t =>
    rw [hrun] at hreads
    have hself : t.self = s.self := hreads.1
    refine (wp_of_ok hrun).mpr ?_
    cases processed.content with
    | proposalMessage proposal =>
      rw [wp_bind, wp_getSelf, wp_bind]
      refine wp_orThrow (fun sender hsender => ?_) fun _ => trivial
      obtain ⟨leaf, -, hsender⟩ := Option.bind_eq_some_iff.mp hsender
      obtain ⟨c, hc, hid⟩ := Option.bind_eq_some_iff.mp hsender
      rw [hself] at hc
      exact ⟨c, hmembers s.self leaf c hc, hid⟩
    | applicationMessage _ => trivial
    | externalJoinProposalMessage _ => trivial
    | stagedCommitMessage _ => trivial

theorem AcceptsRemoval.isMember (hM : M.StoresGroups) (hmembers : M.ListsMembers) {g : M.Group}
    {s : Session M} {msg : MlsMessage} {sender : String} (h : AcceptsRemoval g s msg sender) :
    IsMember g sender := by
  obtain ⟨proposal, t, hrun, -, rfl⟩ := h
  exact (wp_of_ok hrun).mp (processProposalMessage_sender hM hmembers msg.blob ⟨g, s⟩)

variable (env) in
/-- **A group accepts a message as a Remove proposal at its position** in the batch, which is behind
the messages of `front`. -/
def AcceptedInTurn (config : M.JoinConfig) (i : AllMessagesOfGroupArgs × Session M)
    (front : List MlsMessage) (msg : MlsMessage) (sender : String) : Prop :=
  ∃ opening s' g, (openGroup env i.1).run i.2 = .ok (some opening) s' ∧
    front ++ [msg] <+: i.1.messages ∧
    M.stored (progressAfter env config i.1 opening.mlsGroup s' front).2.store i.1.groupId = some g ∧
    AcceptsRemoval g (progressAfter env config i.1 opening.mlsGroup s' front).2 msg sender

end KChat.Mls
