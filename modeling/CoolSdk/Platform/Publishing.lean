import CoolSdk.Core.Transition
import CoolSdk.Phala.Transparency
import CoolSdk.Phala.Witness
import CoolSdk.Platform.EnvelopeVerification

/-!
# Publishing envelopes

The log service that stores the digest of each envelope once and answers with checkpoints: a
signed tree head and the audit path of the leaf under it. Whatever calls it has served, every
checkpoint it has handed out for a digest is signed by its key and includes that digest.
-/

namespace CoolSdk

/-- The log service: the log in memory and where each digest is in it. -/
structure TransparencyLog (H : Host) where
  log : MemoryLog H
  index : OrderedMap Multihash Nat

namespace TransparencyLog

variable {H : Host}

/-- A new service on an empty log. -/
def new (logId : String) (logKey : KeyPair) : TransparencyLog H :=
  { log := .new H logId logKey, index := .empty }

/-- The number of digests published. -/
def size (l : TransparencyLog H) : Nat := l.log.size

/-- Add the co-signature of a witness to a head. -/
def cosigned (sth : STH) (witness : KeyPair) : Except String STH := do
  let statement ← cosign H sth witness
  .ok { sth with witnesses := sth.witnesses ++ [statement.witness] }

/-- A fresh checkpoint for a published digest, at the current tree head. -/
def checkpoint (l : TransparencyLog H) (digest : Multihash) (witnesses : List KeyPair)
    (clock : JsNumber) : Except String (Option Checkpoint) :=
  match l.index.get digest with
  | none => .ok none
  | some index => do
    let timestamp ← toISOString clock
    let head ← l.log.buildSTH timestamp
    let sth ← witnesses.foldlM (cosigned (H := H)) head
    let auditPath ← l.log.inclusionAuditPath index
    .ok (some { sth, leafIndex := index, auditPath })

/-- The service with a digest appended, unless it is already there. -/
def appended (l : TransparencyLog H) (env : SignedEnvelope) : Except String (TransparencyLog H) :=
  match l.index.get env.digest with
  | some _ => .ok l
  | none => do
    let leaf ← envelopeLeaf env
    let (result, log) := l.log.append leaf
    .ok { log, index := l.index.set env.digest result.leafIndex }

/-- Append an envelope once and return it with a checkpoint. What fails after the append leaves
the digest in the log. -/
def publish (l : TransparencyLog H) (env : SignedEnvelope) (clock : JsNumber) :
    Except String SignedEnvelope × TransparencyLog H :=
  match l.appended env with
  | .error e => (.error e, l)
  | .ok l' =>
    ((l'.checkpoint env.digest [] clock).map fun checkpoint => { env with checkpoint }, l')

end TransparencyLog

/-! ## Runs of calls -/

/-- A call of the service, with the reading of its clock. -/
inductive LogCall
  | publish (env : SignedEnvelope) (clock : JsNumber)
  | checkpoint (digest : Multihash) (witnesses : List KeyPair) (clock : JsNumber)

/-- The service with every checkpoint it has handed out, under the digest it was for. -/
structure ServedLog (H : Host) where
  service : TransparencyLog H
  issued : List (Multihash × Checkpoint) := []

namespace ServedLog

variable {H : Host}

/-- What a call hands out. -/
def answer (s : ServedLog H) : LogCall → Option (Multihash × Checkpoint)
  | .publish env clock =>
    match (s.service.publish env clock).1 with
    | .ok published => published.checkpoint.map fun cp => (env.digest, cp)
    | .error _ => none
  | .checkpoint digest witnesses clock =>
    match s.service.checkpoint digest witnesses clock with
    | .ok cp => cp.map fun cp => (digest, cp)
    | .error _ => none

/-- The service after a call. -/
def served (s : ServedLog H) : LogCall → TransparencyLog H
  | .publish env clock => (s.service.publish env clock).2
  | .checkpoint _ _ _ => s.service

/-- Serve a call. -/
def serve (s : ServedLog H) (c : LogCall) : ServedLog H :=
  { service := s.served c, issued := s.issued ++ (s.answer c).toList }

end ServedLog

/-- The service of a log, from its start, under any calls. -/
def logService (H : Host) (logId : String) (logKey : KeyPair) :
    TransitionSystem (ServedLog H) LogCall where
  init s := s = { service := .new logId logKey }
  step s c s' := s' = s.serve c

/-! ## What a checkpoint shows -/

/-- A checkpoint includes a digest under a head signed by a key. -/
structure Vouches (H : Host) (logKey : KeyPair) (digest : Multihash) (cp : Checkpoint) : Prop where
  signed : ∃ message, sthSigningMessage H (sthCore cp.sth) = .ok message ∧
    cp.sth.signature = H.hybridSign message logKey
  included : ∀ env : SignedEnvelope, env.digest = digest → inclusionVerdict H env cp = .ok true

/-- Every tree head that a log signs at a time has a signing message. -/
def EncodesHeads (H : Host) (logId timestamp : String) : Prop :=
  ∀ treeSize ≤ 2 ^ 30, ∀ root : Bytes, root.length = 32 →
    ∃ message, sthSigningMessage H
      { logId, treeSize, rootHash := multihashPrefix ++ toHex root, timestamp } = .ok message

namespace TransparencyLog

variable {H : Host}

/-- The index and the log agree: a digest's leaf is where the index says. -/
structure Indexed (l : TransparencyLog H) (logId : String) (logKey : KeyPair) : Prop where
  logId : l.log.logId = logId
  logKey : l.log.logKey = logKey
  leaves : ∀ digest i, l.index.get digest = some i → ∃ leaf,
    multihashDigest digest = .ok leaf ∧ l.log.leaves[i]? = some leaf

theorem indexed_new (logId : String) (logKey : KeyPair) :
    (new logId logKey : TransparencyLog H).Indexed logId logKey :=
  ⟨rfl, rfl, nofun⟩

/-- Appending keeps the index and the log in agreement. -/
theorem Indexed.appended {l l' : TransparencyLog H} {logId : String} {logKey : KeyPair}
    (hl : l.Indexed logId logKey) {env : SignedEnvelope} (h : l.appended env = .ok l') :
    l'.Indexed logId logKey ∧ (l'.index.get env.digest).isSome = true := by
  unfold TransparencyLog.appended at h
  cases hget : l.index.get env.digest with
  | some i =>
    rw [hget] at h
    obtain rfl := Except.ok.inj h
    exact ⟨hl, by rw [hget]; rfl⟩
  | none =>
    simp only [hget] at h
    obtain ⟨leaf, hleaf, h⟩ := bind_eq_ok.mp h
    obtain rfl := Except.ok.inj h
    refine ⟨⟨hl.logId, hl.logKey, ?_⟩, by rw [OrderedMap.get_set_self]; rfl⟩
    intro digest i hi
    by_cases hdigest : env.digest = digest
    · subst hdigest
      rw [OrderedMap.get_set_self] at hi
      obtain rfl := Option.some.inj hi
      exact ⟨leaf, hleaf, List.getElem?_concat_length⟩
    · rw [OrderedMap.get_set_ne _ _ hdigest] at hi
      obtain ⟨old, hold, hat⟩ := hl.leaves digest i hi
      have hlt := (List.getElem?_eq_some_iff.mp hat).1
      exact ⟨old, hold, (List.getElem?_append_left hlt).trans hat⟩

private theorem sth_of_cosigned {witnesses : List KeyPair} {head sth : STH}
    (h : witnesses.foldlM (cosigned (H := H)) head = .ok sth) :
    sthCore sth = sthCore head ∧ sth.signature = head.signature := by
  induction witnesses generalizing head with
  | nil =>
    cases h
    exact ⟨rfl, rfl⟩
  | cons w witnesses ih =>
    rw [List.foldlM_cons] at h
    obtain ⟨next, hnext, h⟩ := bind_eq_ok.mp h
    obtain ⟨statement, _, hnext⟩ := bind_eq_ok.mp hnext
    cases hnext
    have hrest := ih h
    exact hrest

/-- What a checkpoint is made from. -/
private theorem checkpoint_ok {l : TransparencyLog H} {digest : Multihash}
    {witnesses : List KeyPair} {clock : JsNumber} {cp : Checkpoint}
    (h : l.checkpoint digest witnesses clock = .ok (some cp)) :
    ∃ index timestamp head, l.index.get digest = some index ∧
      l.log.buildSTH timestamp = .ok head ∧ sthCore cp.sth = sthCore head ∧
      cp.sth.signature = head.signature ∧ cp.leafIndex = index ∧
      l.log.inclusionAuditPath index = .ok cp.auditPath := by
  unfold checkpoint at h
  cases hget : l.index.get digest with
  | none =>
    rw [hget] at h
    cases h
  | some index =>
    simp only [hget] at h
    obtain ⟨timestamp, _, h⟩ := bind_eq_ok.mp h
    obtain ⟨head, hhead, h⟩ := bind_eq_ok.mp h
    obtain ⟨sth, hsth, h⟩ := bind_eq_ok.mp h
    obtain ⟨auditPath, hpath, h⟩ := bind_eq_ok.mp h
    cases h
    obtain ⟨hcore, hsignature⟩ := sth_of_cosigned hsth
    exact ⟨index, timestamp, head, rfl, hhead, hcore, hsignature, rfl, hpath⟩

/-- The leaf hashes of a log in memory are 32 bytes long. -/
private theorem length_leafHash (hsha : ∀ data, (H.sha256 data).length = 32) (log : MemoryLog H) :
    ∀ a ∈ log.leafHashes, a.length = 32 := by
  intro a ha
  rw [log.hashed] at ha
  obtain ⟨leaf, _, rfl⟩ := List.mem_map.mp ha
  exact hsha _

/-- An inclusion that verifies against a head is the verdict on every envelope of the leaf. -/
private theorem inclusionVerdict_of_verifies {env : SignedEnvelope} {cp : Checkpoint}
    {leaf : Bytes} (hleaf : multihashDigest env.digest = .ok leaf) {index size : Nat}
    (hindex : cp.leafIndex = index)
    (h : Inclusion.verifies H ⟨index, size, cp.auditPath⟩ (leafHash H leaf) cp.sth = true) :
    inclusionVerdict H env cp = .ok true := by
  unfold Inclusion.verifies at h
  split at h
  · rename_i path root hpath hroot
    rw [Bool.and_eq_true] at h
    rw [inclusionVerdict, envelopeLeaf, hleaf, ok_bind, hpath, ok_bind, hroot, ok_bind,
      hindex]
    exact congrArg _ h.2
  · cases h

/-- A checkpoint of a service in agreement with its index vouches for the digest. -/
theorem Indexed.vouches (hsha : ∀ data, (H.sha256 data).length = 32) {l : TransparencyLog H}
    {logId : String} {logKey : KeyPair} (hl : l.Indexed logId logKey) {digest : Multihash}
    {witnesses : List KeyPair} {clock : JsNumber} {cp : Checkpoint}
    (h : l.checkpoint digest witnesses clock = .ok (some cp)) : Vouches H logKey digest cp := by
  obtain ⟨index, timestamp, head, hindex, hhead, hcore, hsignature, hleaf, hpath⟩ :=
    checkpoint_ok h
  obtain ⟨leaf, hdigest, hat⟩ := hl.leaves digest index hindex
  obtain ⟨rootHash, hroot, hhead⟩ := bind_eq_ok.mp hhead
  obtain ⟨message, hmessage, hhead⟩ := bind_eq_ok.mp hhead
  obtain rfl := Except.ok.inj hhead
  obtain ⟨tree, htree, _⟩ := bind_eq_ok.mp hroot
  have hlog := length_leafHash hsha l.log
  have hget : l.log.leafHashes[index]? = some (leafHash H leaf) := by
    rw [l.log.hashed, List.getElem?_map, hat, Option.map_some]
  refine ⟨⟨message, hcore ▸ hmessage, ?_⟩, ?_⟩
  · rw [hsignature, ← hl.logKey]
  · intro env henv
    have hsize : cp.sth.treeSize = l.log.leafHashes.length := by
      rw [l.log.hashed, List.length_map]
      exact congrArg STHCore.treeSize hcore
    have hstated : rootHashOf H l.log.leafHashes = .ok cp.sth.rootHash := by
      rw [show cp.sth.rootHash = rootHash from congrArg STHCore.rootHash hcore]
      exact hroot
    have hverifies := verifies_of_auditPathOf hsha (length_le_of_merkleRoot htree) hlog hget hpath
      hsize hstated
    exact inclusionVerdict_of_verifies (henv ▸ hdigest) hleaf hverifies

/-! ### Publishing again -/

/-- A digest that is in the log is not appended again. -/
theorem publish_of_published {l : TransparencyLog H} {env : SignedEnvelope}
    (h : (l.index.get env.digest).isSome = true) (clock : JsNumber) :
    (l.publish env clock).2 = l := by
  obtain ⟨index, hindex⟩ := Option.isSome_iff_exists.mp h
  simp only [publish, appended, hindex]

/-- Publishing puts a digest in the log, whether a checkpoint can be made or not. -/
theorem published_of_publish {l : TransparencyLog H} {env : SignedEnvelope} {leaf : Bytes}
    (hleaf : envelopeLeaf env = .ok leaf) (clock : JsNumber) :
    ((l.publish env clock).2.index.get env.digest).isSome = true := by
  unfold publish appended
  cases hget : l.index.get env.digest with
  | some index => simp [hget]
  | none => simp [hleaf, ok_bind]

/-- Appending an envelope loses no digest. -/
theorem published_of_appended {l l' : TransparencyLog H} {env : SignedEnvelope}
    (h : l.appended env = .ok l') {digest : Multihash}
    (hdigest : (l.index.get digest).isSome = true) : (l'.index.get digest).isSome = true := by
  unfold appended at h
  cases hget : l.index.get env.digest with
  | some index =>
    rw [hget] at h
    exact Except.ok.inj h ▸ hdigest
  | none =>
    simp only [hget] at h
    obtain ⟨leaf, _, h⟩ := bind_eq_ok.mp h
    obtain rfl := Except.ok.inj h
    rw [OrderedMap.get_set]
    split
    · rfl
    · exact hdigest

/-! ### The service answers -/

/-- While the log has room, a published digest gets a checkpoint. -/
theorem Indexed.exists_checkpoint (hsha : ∀ data, (H.sha256 data).length = 32)
    {l : TransparencyLog H} {logId : String} {logKey : KeyPair} (hl : l.Indexed logId logKey)
    (hsize : l.size ≤ 2 ^ 30) {clock : JsNumber} {timestamp : String}
    (hclock : toISOString clock = .ok timestamp) (hencodes : EncodesHeads H logId timestamp)
    {digest : Multihash} (hdigest : (l.index.get digest).isSome = true) :
    ∃ cp, l.checkpoint digest [] clock = .ok (some cp) ∧ cp.sth.timestamp = timestamp := by
  obtain ⟨index, hindex⟩ := Option.isSome_iff_exists.mp hdigest
  obtain ⟨leaf, _, hat⟩ := hl.leaves digest index hindex
  have hlength : l.log.leafHashes.length = l.size := by
    rw [l.log.hashed, List.length_map]
    rfl
  have hlog := length_leafHash hsha l.log
  obtain ⟨root, hroot⟩ := exists_rootHashOf hsha (hlength ▸ hsize) hlog
  obtain ⟨path, hpath, _⟩ := exists_auditPathOf hsha (hlength ▸ hsize) hlog
    (i := index) (by rw [hlength]; exact (List.getElem?_eq_some_iff.mp hat).1)
  obtain ⟨tree, _, hstated⟩ := bind_eq_ok.mp hroot
  have hroot' : root = multihashPrefix ++ toHex tree ∧ tree.length = 32 := by
    unfold multihashFromDigest at hstated
    split at hstated
    · cases hstated
    · rename_i hlength
      exact ⟨(Except.ok.inj hstated).symm, not_not.mp hlength⟩
  obtain ⟨rfl, htree⟩ := hroot'
  obtain ⟨message, hmessage⟩ := hencodes l.size hsize tree htree
  have hhead : ∃ head, l.log.buildSTH timestamp = .ok head ∧ head.timestamp = timestamp := by
    have hsigning : sthSigningMessage H
        { logId := l.log.logId, treeSize := l.log.leaves.length
          rootHash := multihashPrefix ++ toHex tree, timestamp } = .ok message := by
      rw [hl.logId]
      exact hmessage
    rw [MemoryLog.buildSTH, signTreeHead, hroot, ok_bind]
    simp only [hsigning]
    exact ⟨_, rfl, rfl⟩
  obtain ⟨head, hhead, htimestamp⟩ := hhead
  refine ⟨{ sth := head, leafIndex := index, auditPath := path }, ?_, htimestamp⟩
  rw [checkpoint, hindex]
  simp only [hclock, ok_bind, hhead, List.foldlM_nil, MemoryLog.inclusionAuditPath, hpath]
  rfl

/-- An envelope published while the log has room comes back with a checkpoint. -/
theorem Indexed.exists_publish (hsha : ∀ data, (H.sha256 data).length = 32)
    {l : TransparencyLog H} {logId : String} {logKey : KeyPair} (hl : l.Indexed logId logKey)
    (hsize : l.size < 2 ^ 30) {clock : JsNumber} {timestamp : String}
    (hclock : toISOString clock = .ok timestamp) (hencodes : EncodesHeads H logId timestamp)
    {env : SignedEnvelope} {leaf : Bytes} (hleaf : envelopeLeaf env = .ok leaf) :
    ∃ cp, (l.publish env clock).1 = .ok (withCheckpoint env cp) ∧
      cp.sth.timestamp = timestamp := by
  have happended : ∃ l', l.appended env = .ok l' ∧ l'.size ≤ l.size + 1 := by
    unfold TransparencyLog.appended
    cases hget : l.index.get env.digest with
    | some index => exact ⟨l, rfl, by omega⟩
    | none =>
      simp only [hleaf, ok_bind]
      refine ⟨_, rfl, ?_⟩
      simp [size, MemoryLog.size, MemoryLog.append]
  obtain ⟨l', hl', hgrown⟩ := happended
  obtain ⟨hindexed, hpublished⟩ := hl.appended hl'
  obtain ⟨cp, hcp, htimestamp⟩ := hindexed.exists_checkpoint hsha (by omega) hclock hencodes
    hpublished
  refine ⟨cp, ?_, htimestamp⟩
  simp only [publish, hl', hcp]
  rfl

end TransparencyLog

/-! ## Every run -/

namespace ServedLog

variable {H : Host} {logId : String} {logKey : KeyPair}

/-- The index is right, and every checkpoint handed out vouches for its digest. -/
structure Sound (s : ServedLog H) (logId : String) (logKey : KeyPair) : Prop where
  indexed : s.service.Indexed logId logKey
  issued : ∀ digest cp, (digest, cp) ∈ s.issued → Vouches H logKey digest cp

theorem Sound.served {s : ServedLog H} (hs : s.Sound logId logKey) (c : LogCall) :
    (s.served c).Indexed logId logKey := by
  cases c with
  | checkpoint => exact hs.indexed
  | publish env clock =>
    simp only [ServedLog.served, TransparencyLog.publish]
    cases hl : s.service.appended env with
    | error e => exact hs.indexed
    | ok l' => exact (hs.indexed.appended hl).1

/-- What a call hands out vouches for its digest. -/
theorem Sound.answer (hsha : ∀ data, (H.sha256 data).length = 32) {s : ServedLog H}
    (hs : s.Sound logId logKey) {c : LogCall} {digest : Multihash} {cp : Checkpoint}
    (h : s.answer c = some (digest, cp)) : Vouches H logKey digest cp := by
  cases c with
  | checkpoint d witnesses clock =>
    simp only [ServedLog.answer] at h
    split at h
    · rename_i found hfound
      obtain ⟨cp', rfl, h⟩ := Option.map_eq_some_iff.mp h
      cases h
      exact hs.indexed.vouches hsha hfound
    · cases h
  | publish env clock =>
    simp only [ServedLog.answer, TransparencyLog.publish] at h
    cases hl : s.service.appended env with
    | error e =>
      simp only [hl] at h
      cases h
    | ok l' =>
      simp only [hl] at h
      cases hcp : l'.checkpoint env.digest [] clock with
      | error e =>
        simp only [hcp] at h
        cases h
      | ok found =>
        simp only [hcp, Except.map] at h
        obtain ⟨cp', rfl, h⟩ := Option.map_eq_some_iff.mp h
        cases h
        exact (hs.indexed.appended hl).1.vouches hsha hcp

/-- A digest stays in the log. -/
theorem published_of_served {s : ServedLog H} {digest : Multihash}
    (h : (s.service.index.get digest).isSome = true) (c : LogCall) :
    ((s.served c).index.get digest).isSome = true := by
  cases c with
  | checkpoint => exact h
  | publish env clock =>
    simp only [ServedLog.served, TransparencyLog.publish]
    cases hl : s.service.appended env with
    | error e => exact h
    | ok l' => exact TransparencyLog.published_of_appended hl h

/-- A digest stays in the log under any further calls. -/
theorem published_of_calls {s : ServedLog H} {digest : Multihash}
    (h : (s.service.index.get digest).isSome = true) (calls : List LogCall) :
    ((calls.foldl serve s).service.index.get digest).isSome = true := by
  induction calls generalizing s with
  | nil => exact h
  | cons c calls ih => exact ih (published_of_served h c)

/-- In every run of the service the index is right and what was handed out vouches. -/
theorem sound_of_reachable (hsha : ∀ data, (H.sha256 data).length = 32) {s : ServedLog H}
    (h : (logService H logId logKey).Reachable s) : s.Sound logId logKey := by
  apply h.invariant
  · rintro s rfl
    exact ⟨TransparencyLog.indexed_new logId logKey, nofun⟩
  · rintro s c s' hs rfl
    refine ⟨hs.served c, ?_⟩
    intro digest cp hmem
    rcases List.mem_append.mp hmem with hmem | hmem
    · exact hs.issued digest cp hmem
    · exact hs.answer hsha (Option.mem_toList.mp hmem)

end ServedLog

end CoolSdk
