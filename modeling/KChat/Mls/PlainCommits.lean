import KChat.Mls.Identities
import KChat.Mls.Plain

/-!
# Commits without cryptography

`plain` with the functions that build commits. Key packages and group infos are given by the numbers
of persons; the key packages from 128 on are too old, and the public group of a group info with a
member whose leaf is too old cannot be built.

* `plainCommits`; **`plainCommits_addsLeaves`**.
* `Plain.emptySession`, `Plain.created`: the creation of a group, to which members are added.
-/

namespace KChat.Mls

open Lib OpenMls

namespace Plain

/-- Whom a key package or a leaf is of. Bob has two signature keys. -/
def person : ℕ → String
  | 0 => "ann/1"
  | 1 => "bob/2"
  | 2 => "cid/3"
  | 3 => "bob/2"
  | _ => "old/0"

def listed (members : List String) : List (Member String) :=
  members.zipIdx.map fun p => { index := p.2, credential := p.1 }

theorem credentials_listed (members : List String) : credentials (listed members) = members := by
  rw [credentials, listed, List.map_map]
  exact List.zipIdx_map_fst 0 members

theorem index_listed (members : List String) :
    (listed members).map Member.index = List.range' 0 members.length := by
  rw [listed, List.map_map]
  exact List.zipIdx_map_snd 0 members

/-- The members whose index is chosen. -/
def chosen (members : List String) (p : ℕ → Bool) : List String :=
  credentials ((listed members).filter fun member => p member.index)

/-- A commit to some members is pending. -/
def propose (next : List String) (g : PlainGroup) : PlainGroup :=
  { g with pending := true, next := next }

/-- A commit is built unless one is pending. -/
def build {α : Type} (a : α) (next : PlainGroup → List String) (fault : Option String) :
    EStateM String (Owning PlainGroup PlainDb) α :=
  changeIf false a (fun g => propose (next g) g) fault

def joined (id : String) (members : List String) (own : String) (epoch : ℕ) : PlainGroup where
  id := id
  epoch := epoch
  members := members
  own := own
  queue := []
  pending := false

/-- A use of the store that changes nothing, or fails. -/
def quiet {α σ : Type} (a : α) (fault : Option String) : EStateM String σ α := fun s =>
  match fault with
  | some e => .error e s
  | none => .ok a s

/-- A new group is written. -/
def writeNew (g : PlainGroup) (fault : Option String) : EStateM String PlainDb PlainGroup := fun db =>
  match fault with
  | some e => .error e db
  | none => .ok g (write db g)

end Plain

open Plain in
/-- **Commits without cryptography.** -/
@[reducible] def plainCommits : CommitMls where
  toOpenMls :=
    { plain with
      commitToPendingProposals := fun _ => build ((), none) PlainGroup.members
      mergePendingCommit :=
        changeIf true () fun g => { nextEpoch g with members := g.next, next := [] } }
  KeyPackageIn := ℕ
  KeyPackage := String
  CreateConfig := Unit
  CommitBundle := List String
  ReAddBuilder := List ℕ
  GroupInfo := List String
  RatchetTree := List String
  PublicGroup := List String
  ExternalCommitBuilder := List String
  groupMembers g := listed g.members
  hasPendingCommit g := g.pending
  pendingMembers g := if g.pending then some (listed g.next) else none
  basicIdentity credential := some (asBytes credential)
  basicCredential userId := userId
  deserializeKeyPackage bytes :=
    match bytes with
    | [k] => .ok k.toNat
    | _ => .error "EndOfStream"
  validate k := if k < 128 then .ok (person k) else .error (.lifetimeError "expired")
  keyPackageCredential keyPackage := keyPackage
  readSigner _ _ _ := some ()
  newSigner := .ok ()
  storeSigner _ := quiet ()
  newWithGroupId _ groupId _ credential := writeNew (joined groupId [credential] credential 0)
  addMembers _ keyPackages := build ((), (), none) fun g => g.members ++ keyPackages
  removeMembers _ indices := build ((), none) fun g => chosen g.members fun i => !indices.contains i
  recoverForkByReadding _ partition := .ok partition
  buildReAdd partition keyPackages _ fault := fun s =>
    quiet (chosen s.self.members (fun i => partition.contains i) ++ keyPackages) fault s
  stageCommit bundle := build (none, (), none) fun _ => bundle
  selfUpdate _ := build ((), none) PlainGroup.members
  clearPendingProposals := change () fun g => { g with queue := [] }
  deserializeGroupInfo bytes := if bytes = [] then none else some (bytes.map fun k => person k.toNat)
  ratchetTree info := some info
  treeMembers tree := listed tree
  serializeGroupInfo _ := .ok []
  contextTreeHash bytes := .ok bytes
  publicGroup fault _ tree _ := if fault.isSome ∨ "old/0" ∈ tree then none else some tree
  publicMembers := listed
  buildExternalGroup _ info credential _ := quiet (info ++ [credential])
  buildExternalCommit builder _ := quiet builder
  finalizeExternalCommit bundle fault :=
    (fun g => (g, (), none)) <$> writeNew (joined "g" bundle (bundle.getLastD "") 1) fault

namespace Plain

theorem build_spec {α : Type} (a : α) (next : PlainGroup → List String) (fault : Option String)
    (s : Owning PlainGroup PlainDb) : wp (build a next fault) s
      (fun _ t => ∀ l ∈ plainCommits.pendingMembers t.self, credentials l = next s.self)
      fun _ _ => True := by
  by_cases h : s.self.pending = false
  · rw [build, wp, changeIf_of_eq h]
    cases fault with
    | some e => trivial
    | none =>
      intro l hl
      obtain rfl := Option.some.inj hl
      exact credentials_listed _
  · rw [build, wp, changeIf_of_ne h]
    trivial

theorem quiet_spec {α σ : Type} (a : α) (fault : Option String) (s : σ) :
    wp (quiet a fault) s (fun a' s' => a' = a ∧ s' = s) fun _ _ => True := by
  cases fault with
  | some e => trivial
  | none => exact ⟨rfl, rfl⟩

theorem writeNew_spec (g : PlainGroup) (fault : Option String) (db : PlainDb) :
    wp (writeNew g fault) db (fun g' _ => g' = g) fun _ _ => True := by
  cases fault with
  | some e => trivial
  | none => exact rfl

end Plain

open Plain in
theorem plainCommits_addsLeaves : plainCommits.AddsLeaves where
  basicIdentity _ := rfl
  index_nodup g := by
    rw [index_listed]
    exact List.nodup_range'
  newWithGroupId _ _ _ credential fault db :=
    wp_mono (writeNew_spec _ fault db) (fun g _ h => by rw [h]; rfl) fun _ _ _ => trivial
  addMembers _ keyPackages fault s := by
    refine wp_mono (build_spec _ _ fault s) (fun _ t ht l hl => ?_) fun _ _ _ => trivial
    rw [ht l hl, credentials_listed, List.map_id']
  removeMembers _ indices fault s := by
    refine wp_mono (build_spec _ _ fault s) (fun _ t ht l hl => ?_) fun _ _ _ => trivial
    rw [ht l hl]
    rfl
  readd _ keyPackages fault fault' s partition builder hbuilder := by
    obtain rfl := Except.ok.inj hbuilder
    refine wp_mono (quiet_spec _ fault s) (fun bundle s' h => ?_) fun _ _ _ => trivial
    obtain ⟨rfl, rfl⟩ := h
    refine wp_mono (build_spec _ _ fault' s') (fun _ t ht l hl => ?_) fun _ _ _ => trivial
    rw [ht l hl, List.map_id']
    rfl
  externalCommit _ info tree credential _ fault fault' fault'' db htree := by
    obtain rfl := Option.some.inj htree
    refine wp_mono (quiet_spec _ fault db) (fun builder db' h => ?_) fun _ _ _ => trivial
    obtain ⟨rfl, rfl⟩ := h
    refine wp_mono (quiet_spec _ fault' _) (fun bundle db'' h => ?_) fun _ _ _ => trivial
    obtain ⟨rfl, rfl⟩ := h
    show wp ((fun g => (g, (), none)) <$> writeNew (Plain.joined "g" _ _ 1) fault'') _ _ _
    rw [map_eq_pure_bind, wp_bind]
    refine wp_mono (writeNew_spec _ fault'' _) (fun g _ h => ?_) fun _ _ _ => trivial
    refine List.Perm.of_eq ?_
    rw [h, credentials_listed, credentials_listed]
    rfl

/-! ## A run -/

instance : DecidableEq plainCommits.Group := inferInstanceAs (DecidableEq PlainGroup)

namespace Plain

/-- A session without groups. -/
def emptySession : Session plainCommits.toOpenMls where
  store := { groups := fun _ => none, missing := [], keyPackages := [] }
  beside := []
  time := 0
  seen := 0

/-- A group that "ann/1" created. -/
def created : plainCommits.Group := joined "g" ["ann/1"] "ann/1" 0

theorem run_createGroup : ∃ s, (createGroup (M := plainCommits) .calm "ann/1" "g" () none).run
    emptySession = .ok created s := by
  have hcreated : outcome ((createGroup (M := plainCommits) .calm "ann/1" "g" () none).run
      emptySession) = .ok created := by decide +kernel
  obtain ⟨g, s, hrun⟩ := exists_of_isOk (congrArg Except.isOk hcreated)
  rw [hrun] at hcreated
  obtain rfl := Except.ok.inj hcreated
  exact ⟨s, hrun⟩

/-- Members are added to the group that was created. -/
theorem committed_addMembers {keyPackageIns : List Bytes} {members : List String}
    (hok : (outcome ((addMembers (M := plainCommits) .calm () keyPackageIns).run
      ⟨created, emptySession⟩)).isOk = true)
    (hmembers : (plainCommits.pendingMembers (final ((addMembers (M := plainCommits) .calm ()
      keyPackageIns).run ⟨created, emptySession⟩)).self).map credentials = some members) :
    Committed (M := plainCommits) (.addMembers keyPackageIns)
      (credentials (plainCommits.groupMembers created)) members := by
  obtain ⟨r, t, hrun⟩ := exists_of_isOk hok
  rw [hrun] at hmembers
  obtain ⟨l, hl, rfl⟩ := Option.map_eq_some_iff.mp hmembers
  exact .addMembers hrun hl

end Plain

open Plain in
/-- One key package is added. -/
theorem uniqueIdentities_iff_bob : ∃ s' steps,
    (createGroup (M := plainCommits) .calm "ann/1" "g" () none).run emptySession =
      .ok created s' ∧ steps ≠ [] ∧
    ((∀ leaves ∈ credentials (plainCommits.groupMembers created) :: steps.map Prod.snd,
      Unique (M := plainCommits) leaves) ↔
        AllFresh plainCommits (credentials (plainCommits.groupMembers created)) steps) := by
  obtain ⟨s', hcreate⟩ := run_createGroup
  have hcommitted : Committed (M := plainCommits) (.addMembers [[1]])
      (credentials (plainCommits.groupMembers created)) ["ann/1", "bob/2"] :=
    committed_addMembers (by decide +kernel) (by decide +kernel)
  exact ⟨s', [(.addMembers [[1]], ["ann/1", "bob/2"])], hcreate, List.cons_ne_nil _ _,
    uniqueIdentities_iff plainCommits_addsLeaves hcreate (.cons hcommitted .nil)⟩

open Plain in
/-- Two key packages of one client are added at once. -/
theorem not_uniqueIdentities_twice : ¬ ∀ (env : Surroundings plainCommits.toOpenMls)
    (creatorId groupId : String) (publicKey : Option Bytes) (s s' : Session plainCommits.toOpenMls)
    (g : plainCommits.Group) (steps : List (Commitment × List plainCommits.Credential)),
    (createGroup (M := plainCommits) env creatorId groupId () publicKey).run s = .ok g s' →
      Run (M := plainCommits) (credentials (plainCommits.groupMembers g)) steps →
        ∀ step ∈ steps, Unique (M := plainCommits) step.2 := by
  intro h
  obtain ⟨s', hcreate⟩ := run_createGroup
  have hcommitted : Committed (M := plainCommits) (.addMembers [[1], [3]])
      (credentials (plainCommits.groupMembers created)) ["ann/1", "bob/2", "bob/2"] :=
    committed_addMembers (by decide +kernel) (by decide +kernel)
  have hunique := h .calm "ann/1" "g" none emptySession s' created _ hcreate
    (.cons hcommitted .nil) _ (List.mem_singleton_self _)
  have hnot : ¬ (identities (M := plainCommits) ["ann/1", "bob/2", "bob/2"]).Nodup := by
    decide +kernel
  exact hnot hunique

end KChat.Mls
