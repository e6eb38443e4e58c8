import KChat.Mls.Commits

/-!
# Identities of members

* `CommitMls.AddsLeaves`: a commit has one leaf for each key package, an external commit has one.
* `Commitment`, `Committed`, `Run`: what members and joiners commit, one step and a run of it.
* `Unique`: no identity stands at two leaves. `Fresh`: the identities a commitment adds are new and
  different. **`committed_unique_iff`**, and for runs **`run_unique_iff`**.
-/

namespace KChat.Mls

open Lib

variable {M : CommitMls}

/-! ## Leaves -/

/-- The credentials at the leaves. -/
def credentials {Credential : Type} (members : List (Member Credential)) : List Credential :=
  members.map Member.credential

/-- The identities of basic credentials. -/
def identities (leaves : List M.Credential) : List Bytes := leaves.filterMap M.basicIdentity

/-- **No identity stands at two leaves.** -/
def Unique (leaves : List M.Credential) : Prop := (identities (M := M) leaves).Nodup

variable (M) in
/-- **What a commit does to the leaves**: one leaf is added for each key package, those that are to
be removed are removed, and a joiner adds one. -/
structure CommitMls.AddsLeaves : Prop where
  basicIdentity : ∀ userId, M.basicIdentity (M.basicCredential userId) = some (asBytes userId)
  index_nodup : ∀ g, ((M.groupMembers g).map Member.index).Nodup
  newWithGroupId : ∀ config groupId signer credential fault db,
    wp (M.newWithGroupId config groupId signer credential fault) db
      (fun g _ => credentials (M.groupMembers g) = [credential]) fun _ _ => True
  addMembers : ∀ signer keyPackages fault s, wp (M.addMembers signer keyPackages fault) s
    (fun _ t => ∀ l ∈ M.pendingMembers t.self, List.Perm (credentials l)
      (credentials (M.groupMembers s.self) ++ keyPackages.map M.keyPackageCredential))
    fun _ _ => True
  removeMembers : ∀ signer indices fault s, wp (M.removeMembers signer indices fault) s
    (fun _ t => ∀ l ∈ M.pendingMembers t.self, List.Perm (credentials l) (credentials
      ((M.groupMembers s.self).filter fun member => !indices.contains member.index)))
    fun _ _ => True
  readd : ∀ signer keyPackages fault fault' s partition builder,
    M.recoverForkByReadding s.self partition = .ok builder →
      wp (M.buildReAdd builder keyPackages signer fault) s
        (fun bundle s' => wp (M.stageCommit bundle fault') s'
          (fun _ t => ∀ l ∈ M.pendingMembers t.self, List.Perm (credentials l)
            (credentials ((M.groupMembers s.self).filter fun member =>
              partition.contains member.index) ++ keyPackages.map M.keyPackageCredential))
          fun _ _ => True)
        fun _ _ => True
  externalCommit : ∀ config info tree credential signer fault fault' fault'' db,
    M.ratchetTree info = some tree →
      wp (M.buildExternalGroup config info credential signer fault) db
        (fun builder db' => wp (M.buildExternalCommit builder signer fault') db'
          (fun bundle db'' => wp (M.finalizeExternalCommit bundle fault'') db''
            (fun r _ => List.Perm (credentials (M.groupMembers r.1))
              (credentials (M.treeMembers tree) ++ [credential]))
            fun _ _ => True)
          fun _ _ => True)
        fun _ _ => True

/-! ## Members and identities -/

theorem hasIdentity_eq_true {ids : List Bytes} {credential : M.Credential} :
    hasIdentity (M := M) ids credential = true ↔
      ∃ identity ∈ ids, M.basicIdentity credential = some identity := by
  unfold hasIdentity
  cases M.basicIdentity credential with
  | none => simp
  | some identity => simp

theorem findMembersByIdentity_eq_nil {members : List (Member M.Credential)} {ids : List Bytes} :
    findMembersByIdentity (M := M) members ids = [] ↔
      ∀ identity ∈ ids, identity ∉ identities (M := M) (credentials members) := by
  rw [findMembersByIdentity, List.filter_eq_nil_iff]
  simp only [hasIdentity_eq_true, identities, credentials, List.mem_filterMap, List.mem_map]
  constructor
  · rintro h identity hid ⟨-, ⟨member, hmember, rfl⟩, heq⟩
    exact h member hmember ⟨identity, hid, heq⟩
  · rintro h member hmember ⟨identity, hid, heq⟩
    exact h identity hid ⟨_, ⟨member, hmember, rfl⟩, heq⟩

/-- A member is found iff the index of its leaf is among those of the members found. -/
theorem mem_indices_iff {g : M.Group} (hnodup : ((M.groupMembers g).map Member.index).Nodup)
    (ids : List Bytes) {member : Member M.Credential} (hmember : member ∈ M.groupMembers g) :
    ((findMembersByIdentity (M := M) (M.groupMembers g) ids).map Member.index).contains member.index =
      hasIdentity (M := M) ids member.credential := by
  rw [Bool.eq_iff_iff, List.contains_iff_mem, List.mem_map]
  constructor
  · rintro ⟨found, hfound, hindex⟩
    obtain ⟨hmem, hid⟩ := List.mem_filter.mp hfound
    obtain rfl := List.inj_on_of_nodup_map hnodup hmem hmember hindex
    exact hid
  · exact fun hid => ⟨member, List.mem_filter.mpr ⟨hmember, hid⟩, rfl⟩

theorem identities_append (l l' : List M.Credential) :
    identities (M := M) (l ++ l') = identities (M := M) l ++ identities (M := M) l' :=
  List.filterMap_append

theorem identities_keyPackages (keyPackages : List M.KeyPackage) :
    identities (M := M) (keyPackages.map M.keyPackageCredential) =
      getIdentityFromKeyPackages keyPackages := by
  rw [identities, List.filterMap_map]
  rfl

/-- The identities that are left when those of `ids` are gone. -/
theorem identities_filter (members : List (Member M.Credential)) (ids : List Bytes) :
    identities (M := M) (credentials (members.filter fun member =>
        !hasIdentity (M := M) ids member.credential)) =
      (identities (M := M) (credentials members)).filter fun identity => !ids.contains identity := by
  induction members with
  | nil => rfl
  | cons member members ih =>
    simp only [credentials, identities, List.map_cons, List.filterMap_cons, List.filter_cons] at ih ⊢
    cases hid : M.basicIdentity member.credential with
    | none =>
      have hfalse : hasIdentity (M := M) ids member.credential = false := by rw [hasIdentity, hid]
      simpa [hfalse, hid] using ih
    | some identity =>
      have hcontains : hasIdentity (M := M) ids member.credential = ids.contains identity := by
        rw [hasIdentity, hid]
      rw [hcontains]
      by_cases h : identity ∈ ids
      · simpa [h, hid] using ih
      · simpa [h, hid] using ih

theorem unique_perm {l l' : List M.Credential} (h : l.Perm l') :
    Unique (M := M) l ↔ Unique (M := M) l' :=
  (h.filterMap _).nodup_iff

/-! ## What the operations do -/

section operations

variable (hM : M.AddsLeaves) {env : Surroundings M.toOpenMls} {signer : M.Signer}
  {s : Owning M.Group (Session M.toOpenMls)}

include hM

theorem addMembers_leaves (keyPackageIns : List Bytes) :
    wp (addMembers (M := M) env signer keyPackageIns) s
      (fun _ t => ∃ keyPackages, verifiedKeyPackages (M := M) keyPackageIns = .ok keyPackages ∧
        (∀ identity ∈ getIdentityFromKeyPackages keyPackages,
          identity ∉ identities (M := M) (credentials (M.groupMembers s.self))) ∧
        ∀ l ∈ M.pendingMembers t.self, List.Perm (credentials l)
          (credentials (M.groupMembers s.self) ++ keyPackages.map M.keyPackageCredential))
      fun _ _ => True := by
  rw [addMembers, wp_bind]
  refine wp_ofResult (fun keyPackages hverified => ?_) fun _ _ => trivial
  refine wp_ite (fun _ => trivial) fun _ => ?_
  rw [wp_bind, wp_getSelf]
  refine wp_ite (fun _ => trivial) fun hnone => ?_
  have hnew := findMembersByIdentity_eq_nil.mp (not_not.mp hnone)
  rw [wp_bind, wp_use]
  refine wp_mono (hM.addMembers signer keyPackages _ _) (fun r t ht => ?_) fun _ _ _ => trivial
  rw [wp_bind]
  refine wp_ofResult (fun _ _ => ?_) fun _ _ => trivial
  rw [wp_bind]
  refine wp_ofResult (fun _ _ => ?_) fun _ _ => trivial
  rw [wp_bind]
  refine wp_ofResult (fun _ _ => ?_) fun _ _ => trivial
  exact ⟨keyPackages, hverified, hnew, ht⟩

theorem removeMembers_leaves (memberIds : List String) :
    wp (removeMembers (M := M) env signer memberIds) s
      (fun _ t => ∀ l ∈ M.pendingMembers t.self, List.Perm (credentials l)
        (credentials ((M.groupMembers s.self).filter fun member =>
          !hasIdentity (M := M) (memberIds.map asBytes) member.credential)))
      fun _ _ => True := by
  rw [removeMembers, wp_bind, wp_getSelf, wp_bind, wp_use]
  refine wp_mono (hM.removeMembers signer _ _ _) (fun r t ht => ?_) fun _ _ _ => trivial
  rw [wp_bind]
  refine wp_ofResult (fun _ _ => ?_) fun _ _ => trivial
  rw [wp_bind]
  refine wp_ofResult (fun _ _ => ?_) fun _ _ => trivial
  intro l hl
  have hfound : ∀ member ∈ M.groupMembers s.self,
      (!((findMembersByIdentity (M := M) (M.groupMembers s.self) (memberIds.map asBytes)).map
        Member.index).contains member.index) =
      !hasIdentity (M := M) (memberIds.map asBytes) member.credential :=
    fun member hmember => congrArg Bool.not (mem_indices_iff (hM.index_nodup _) _ hmember)
  rw [← List.filter_congr hfound]
  exact ht l hl

theorem readd_leaves (memberIds : List String) (keyPackageIns : List Bytes) :
    wp (readd (M := M) env signer memberIds keyPackageIns) s
      (fun _ t => ∃ keyPackages, validKeyPackages (M := M) keyPackageIns = .ok keyPackages ∧
        ∀ l ∈ M.pendingMembers t.self, List.Perm (credentials l)
          (credentials ((M.groupMembers s.self).filter fun member =>
            !hasIdentity (M := M) (memberIds.map asBytes) member.credential) ++
          keyPackages.map M.keyPackageCredential))
      fun _ _ => True := by
  rw [readd, wp_bind, wp_getSelf, wp_bind]
  refine wp_ofResult (fun builder hbuilder => ?_) fun _ _ => trivial
  have hrecover := mapError_eq_ok.mp hbuilder
  rw [wp_bind]
  refine wp_ofResult (fun keyPackages hvalid => ?_) fun _ _ => trivial
  rw [wp_bind, wp_use]
  refine wp_mono (hM.readd signer keyPackages _ (env.fault (s.world.time + 1)) _ _ builder hrecover)
    (fun bundle s' hs' => ?_) fun _ _ _ => trivial
  rw [wp_bind, wp_use]
  refine wp_mono hs' (fun r t ht => ?_) fun _ _ _ => trivial
  rw [wp_bind]
  refine wp_ofResult (fun _ _ => ?_) fun _ _ => trivial
  rw [wp_bind]
  refine wp_ofResult (fun _ _ => ?_) fun _ _ => trivial
  rw [wp_bind]
  refine wp_ofResult (fun _ _ => ?_) fun _ _ => trivial
  refine ⟨keyPackages, hvalid, fun l hl => ?_⟩
  have hkept : (M.groupMembers s.self).filter (fun member =>
      (ourPartition (M := M) s.self memberIds).contains member.index) =
      (M.groupMembers s.self).filter fun member =>
        !hasIdentity (M := M) (memberIds.map asBytes) member.credential := by
    refine List.filter_congr fun member hmember => ?_
    have hfound := mem_indices_iff (hM.index_nodup s.self) (memberIds.map asBytes) hmember
    rw [← hfound, Bool.eq_iff_iff, List.contains_iff_mem, ourPartition, List.mem_map]
    constructor
    · rintro ⟨kept, hkept, hindex⟩
      rw [← hindex]
      exact (List.mem_filter.mp hkept).2
    · exact fun h => ⟨member, List.mem_filter.mpr ⟨hmember, h⟩, rfl⟩
  rw [← hkept]
  exact ht l hl

omit hM in
theorem getCredentialWithKey_credential (userId : String) (publicKey : Option Bytes)
    (w : Session M.toOpenMls) : wp (getCredentialWithKey (M := M) env userId publicKey) w
      (fun r _ => r.1 = M.basicCredential userId) fun _ _ => True := by
  rw [getCredentialWithKey, wp_bind]
  refine wp_mono (wp_true _ _) (fun signer w' _ => ?_) fun _ _ _ => trivial
  rw [wp_bind]
  exact wp_mono (wp_true _ _) (fun _ _ _ => rfl) fun _ _ _ => trivial

theorem joinedGroup_leaves (userId : String) (groupInfo : Bytes) (config : M.JoinConfig)
    (publicKey : Option Bytes) {info : M.GroupInfo} {tree : M.RatchetTree}
    (hinfo : M.deserializeGroupInfo groupInfo = some info) (htree : M.ratchetTree info = some tree)
    (w : Session M.toOpenMls) : wp (joinedGroup (M := M) env userId groupInfo config publicKey) w
      (fun r _ => List.Perm (credentials (M.groupMembers r.2.1))
        (credentials (M.treeMembers tree) ++ [M.basicCredential userId]))
      fun _ _ => True := by
  rw [joinedGroup, wp_bind]
  refine wp_orThrow (fun info' hinfo' => ?_) fun _ => trivial
  obtain rfl := Option.some.inj (hinfo.symm.trans hinfo')
  rw [wp_bind]
  refine wp_orThrow (fun tree' htree' => ?_) fun _ => trivial
  rw [wp_bind]
  refine wp_ofResult (fun bytes _ => ?_) fun _ _ => trivial
  rw [wp_bind]
  refine wp_ofResult (fun preTreeHash _ => ?_) fun _ _ => trivial
  rw [wp_bind]
  refine wp_mono (wp_true _ _) (fun _ w₁ _ => ?_) fun _ _ _ => trivial
  rw [wp_bind]
  refine wp_mono (getCredentialWithKey_credential userId publicKey w₁) (fun r w₂ h₂ => ?_)
    fun _ _ _ => trivial
  rw [wp_bind, wp_useStore]
  refine wp_mono (hM.externalCommit config info tree r.1 r.2 _ (env.fault (w₂.time + 1))
    (env.fault (w₂.time + 2)) w₂.store htree) (fun builder db₃ h₃ => ?_) fun _ _ _ => trivial
  rw [wp_bind, wp_useStore]
  refine wp_mono h₃ (fun bundle db₄ h₄ => ?_) fun _ _ _ => trivial
  rw [wp_bind, wp_useStore, ← h₂]
  exact h₄

end operations

/-! ## Runs -/

/-- What is committed. -/
inductive Commitment
  | addMembers (keyPackageIns : List Bytes)
  | removeMembers (memberIds : List String)
  | readd (memberIds : List String) (keyPackageIns : List Bytes)
  | joinByExternalCommit (userId : String)

/-- **One commit**, from the leaves of a member's group, or of the group info, to the leaves of the
next epoch. -/
inductive Committed : Commitment → List M.Credential → List M.Credential → Prop
  | addMembers {env signer keyPackageIns g s r t l} :
    (KChat.Mls.addMembers (M := M) env signer keyPackageIns).run ⟨g, s⟩ = .ok r t →
      M.pendingMembers t.self = some l →
      Committed (.addMembers keyPackageIns) (credentials (M.groupMembers g)) (credentials l)
  | removeMembers {env signer memberIds g s r t l} :
    (KChat.Mls.removeMembers (M := M) env signer memberIds).run ⟨g, s⟩ = .ok r t →
      M.pendingMembers t.self = some l →
      Committed (.removeMembers memberIds) (credentials (M.groupMembers g)) (credentials l)
  | readd {env signer memberIds keyPackageIns g s r t l} :
    (KChat.Mls.readd (M := M) env signer memberIds keyPackageIns).run ⟨g, s⟩ = .ok r t →
      M.pendingMembers t.self = some l →
      Committed (.readd memberIds keyPackageIns) (credentials (M.groupMembers g)) (credentials l)
  | joinByExternalCommit {env userId groupInfo config publicKey s r t info tree} :
    M.deserializeGroupInfo groupInfo = some info → M.ratchetTree info = some tree →
      (joinedGroup (M := M) env userId groupInfo config publicKey).run s = .ok r t →
      Committed (.joinByExternalCommit userId) (credentials (M.treeMembers tree))
        (credentials (M.groupMembers r.2.1))

/-- Commits in a row, each with the leaves it leads to. -/
inductive Run : List M.Credential → List (Commitment × List M.Credential) → Prop
  | nil {leaves} : Run leaves []
  | cons {leaves leaves' commitment rest} : Committed commitment leaves leaves' →
    Run leaves' rest → Run leaves ((commitment, leaves') :: rest)

/-! ## What keeps identities unique -/

variable (M) in
/-- **The identities that are added are new and different.** -/
def Fresh : Commitment → List M.Credential → Prop
  | .addMembers keyPackageIns, _ => ∀ keyPackages,
    verifiedKeyPackages (M := M) keyPackageIns = .ok keyPackages →
      (getIdentityFromKeyPackages keyPackages).Nodup
  | .removeMembers _, _ => True
  | .readd memberIds keyPackageIns, leaves => ∀ keyPackages,
    validKeyPackages (M := M) keyPackageIns = .ok keyPackages →
      (getIdentityFromKeyPackages keyPackages).Nodup ∧
        ∀ identity ∈ getIdentityFromKeyPackages keyPackages,
          identity ∈ identities (M := M) leaves → identity ∈ memberIds.map asBytes
  | .joinByExternalCommit userId, leaves => asBytes userId ∉ identities (M := M) leaves

variable (M) in
/-- Every commit of a run adds new and different identities. -/
def AllFresh : List M.Credential → List (Commitment × List M.Credential) → Prop
  | _, [] => True
  | leaves, (commitment, leaves') :: rest => Fresh M commitment leaves ∧ AllFresh leaves' rest

/-- Leaves that are kept and leaves for key packages. -/
theorem unique_append_iff {leaves : List M.Credential} {keyPackages : List M.KeyPackage}
    (h : Unique (M := M) leaves) :
    Unique (M := M) (leaves ++ keyPackages.map M.keyPackageCredential) ↔
      (getIdentityFromKeyPackages keyPackages).Nodup ∧
        ∀ identity ∈ getIdentityFromKeyPackages keyPackages,
          identity ∉ identities (M := M) leaves := by
  rw [Unique, identities_append, identities_keyPackages, List.nodup_append]
  constructor
  · exact fun h => ⟨h.2.1, fun identity hnew hold => h.2.2 identity hold identity hnew rfl⟩
  · rintro ⟨hnodup, hnew⟩
    refine ⟨h, hnodup, fun identity hold other hmem heq => ?_⟩
    rw [← heq] at hmem
    exact hnew identity hmem hold

/-- **One commit keeps identities unique iff it adds new and different ones.** -/
theorem committed_unique_iff (hM : M.AddsLeaves) {commitment : Commitment}
    {leaves leaves' : List M.Credential} (hcommitted : Committed commitment leaves leaves')
    (hunique : Unique (M := M) leaves) :
    Unique (M := M) leaves' ↔ Fresh M commitment leaves := by
  cases hcommitted with
  | @addMembers env signer keyPackageIns g s r t l hrun hl =>
    obtain ⟨keyPackages, hverified, hnew, hperm⟩ :=
      (wp_of_ok hrun).mp (addMembers_leaves hM keyPackageIns)
    rw [unique_perm (hperm l hl), unique_append_iff hunique]
    constructor
    · rintro ⟨hnodup, -⟩ keyPackages' hverified'
      obtain rfl := Except.ok.inj (hverified.symm.trans hverified')
      exact hnodup
    · exact fun h => ⟨h keyPackages hverified, hnew⟩
  | @removeMembers env signer memberIds g s r t l hrun hl =>
    have hperm := (wp_of_ok hrun).mp (removeMembers_leaves hM memberIds) l hl
    refine ⟨fun _ => trivial, fun _ => ?_⟩
    rw [unique_perm hperm, Unique, identities_filter]
    exact hunique.filter _
  | @readd env signer memberIds keyPackageIns g s r t l hrun hl =>
    obtain ⟨keyPackages, hvalid, hperm⟩ :=
      (wp_of_ok hrun).mp (readd_leaves hM memberIds keyPackageIns)
    have hkept := identities_filter (M.groupMembers g) (memberIds.map asBytes)
    have huniqueKept : Unique (M := M) (credentials ((M.groupMembers g).filter fun member =>
        !hasIdentity (M := M) (memberIds.map asBytes) member.credential)) := by
      rw [Unique, hkept]
      exact hunique.filter _
    rw [unique_perm (hperm l hl), unique_append_iff huniqueKept, hkept]
    simp only [List.mem_filter, Bool.not_eq_true', ← Bool.not_eq_true, List.contains_iff_mem,
      not_and, not_not]
    constructor
    · intro h keyPackages' hvalid'
      obtain rfl := Except.ok.inj (hvalid.symm.trans hvalid')
      exact h
    · exact fun h => h keyPackages hvalid
  | @joinByExternalCommit env userId groupInfo config publicKey s r t info tree hinfo htree hrun =>
    have hperm := (wp_of_ok hrun).mp
      (joinedGroup_leaves hM userId groupInfo config publicKey hinfo htree s)
    have hid : identities (M := M) [M.basicCredential userId] = [asBytes userId] := by
      simp [identities, hM.basicIdentity]
    rw [unique_perm hperm, Unique, identities_append, hid, List.nodup_append]
    constructor
    · exact fun h hmem => h.2.2 _ hmem _ (List.mem_singleton_self _) rfl
    · intro hfresh
      refine ⟨hunique, List.nodup_singleton _, fun identity hold other hmem heq => ?_⟩
      rw [heq, List.mem_singleton.mp hmem] at hold
      exact hfresh hold

/-- A run from unique identities; the induction is on its commits. -/
theorem run_unique_iff (hM : M.AddsLeaves) {leaves : List M.Credential}
    {steps : List (Commitment × List M.Credential)} (hrun : Run leaves steps)
    (hunique : Unique (M := M) leaves) :
    (∀ step ∈ steps, Unique (M := M) step.2) ↔ AllFresh M leaves steps := by
  induction hrun with
  | nil => simp [AllFresh]
  | cons hcommitted hrest ih =>
    have hstep := committed_unique_iff hM hcommitted hunique
    rw [List.forall_mem_cons, AllFresh]
    constructor
    · exact fun h => ⟨hstep.mp h.1, (ih h.1).mp h.2⟩
    · rintro ⟨hfresh, hrestFresh⟩
      have hunique' := hstep.mpr hfresh
      exact ⟨hunique', (ih hunique').mpr hrestFresh⟩

/-- **Identities stay unique iff every commit adds new and different ones**, in every run that
begins with the creation of a group. -/
theorem uniqueIdentities_iff (hM : M.AddsLeaves) {env : Surroundings M.toOpenMls}
    {creatorId groupId : String} {config : M.CreateConfig} {publicKey : Option Bytes}
    {s s' : Session M.toOpenMls} {g : M.Group}
    (hcreate : (createGroup (M := M) env creatorId groupId config publicKey).run s = .ok g s')
    {steps : List (Commitment × List M.Credential)}
    (hrun : Run (credentials (M.groupMembers g)) steps) :
    (∀ leaves ∈ credentials (M.groupMembers g) :: steps.map Prod.snd, Unique (M := M) leaves) ↔
      AllFresh M (credentials (M.groupMembers g)) steps := by
  have hcreated : wp (createGroup (M := M) env creatorId groupId config publicKey) s
      (fun g _ => ∃ credential, credentials (M.groupMembers g) = [credential]) fun _ _ => True := by
    rw [createGroup, wp_bind]
    refine wp_mono (wp_true _ _) (fun r s₁ _ => ?_) fun _ _ _ => trivial
    rw [wp_useStore]
    exact wp_mono (hM.newWithGroupId config groupId r.2 r.1 _ _) (fun g db h => ⟨r.1, h⟩)
      fun _ _ _ => trivial
  obtain ⟨credential, hcredential⟩ := (wp_of_ok hcreate).mp hcreated
  have hunique : Unique (M := M) (credentials (M.groupMembers g)) := by
    rw [hcredential, Unique, identities, List.filterMap_cons]
    cases M.basicIdentity credential <;> simp
  rw [List.forall_mem_cons, List.forall_mem_map]
  exact ⟨fun h => (run_unique_iff hM hrun hunique).mp h.2,
    fun h => ⟨hunique, (run_unique_iff hM hrun hunique).mpr h⟩⟩

end KChat.Mls
