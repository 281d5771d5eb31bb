import CoolSdk.Core.KeyedList
import CoolSdk.Phala.Verify
import Mathlib.Data.List.ReduceOption

/-!
# Counting witnesses

How many co-signatures of a receipt's tree head count as independent ones, by the counter that
applications call and by the verifier. Both count list entries. The cosigners are the parties
behind the entries that count, with the keys they count under.
-/

namespace CoolSdk

/-- What a witness publishes about a tree head it has seen. -/
structure WitnessStatement where
  witnessId : String
  logId : String
  treeSize : Nat
  rootHash : Multihash
  observedAt : String
  witness : Witness
  directoryEntry : DirectoryEntry
  deriving DecidableEq, Repr

/-- Co-sign a tree head as an independent observer. The head's own timestamp identifies it. -/
def cosign (H : Host) (sth : STH) (key : KeyPair) : Except String WitnessStatement := do
  let message ← sthSigningMessage H (sthCore sth)
  let signature := H.hybridSign message key
  return {
    witnessId := key.keyId
    logId := sth.logId
    treeSize := sth.treeSize
    rootHash := sth.rootHash
    observedAt := sth.timestamp
    witness := {
      id := key.keyId
      external := true
      alg := signature.alg
      mlDsa := signature.mlDsa
      ed25519 := signature.ed25519 }
    directoryEntry := key.directoryEntry }

/-- How the co-signatures on a receipt come out. -/
structure WitnessCounts where
  external : Nat
  self : Nat
  invalid : Nat
  deriving DecidableEq, Repr

/-- What one listed co-signature counts as. -/
inductive WitnessVote
  | external
  | self
  | invalid
  deriving DecidableEq, Repr

section

variable (H : Host)

def witnessVote (message : Bytes) (directory : List (String × DirectoryEntry)) (w : JsValue) :
    Except String WitnessVote := do
  let witness ← externalWitness H directory w
  return match witness with
  | none => .self
  | some (_, key, some signature) =>
    if key.verifies H message signature then .external else .invalid
  | some (_, _, none) => .invalid

/-- How many independent witnesses actually verify on a receipt. -/
def countWitnesses (receipt : JsValue) : Except String WitnessCounts := do
  let sth ← receipt.read "sth"
  if !sth.truthy then return { external := 0, self := 0, invalid := 0 }
  let head ← readHead sth
  let directory ← receipt.read "key_directory" >>= readDirectory
  let message ← sthSigningMessage H head.core
  let votes ← head.witnesses.mapM (witnessVote H message directory)
  return {
    external := votes.count .external
    self := votes.count .self
    invalid := votes.count .invalid }

/-! ## The parties behind the entries -/

/-- The id and the key behind a listed co-signature that counts. -/
def cosigner? (message : Bytes) (directory : List (String × DirectoryEntry)) (w : JsValue) :
    Except String (Option (String × DirectoryEntry)) := do
  let witness ← externalWitness H directory w
  return match witness with
  | some (id, .entry key, some signature) =>
    if H.hybridVerify message signature key then some (id, key) else none
  | _ => none

/-- The ids and the keys behind the co-signatures that count, one for each list entry. -/
def cosigners (sth : HeadFields) (directory : List (String × DirectoryEntry)) :
    Except String (List (String × DirectoryEntry)) := do
  let message ← sthSigningMessage H sth.core
  let found ← sth.witnesses.mapM (cosigner? H message directory)
  return found.reduceOption

/-- A party has a verifying external co-signature over a tree head, under a key. -/
def Cosigned (sth : HeadFields) (directory : List (String × DirectoryEntry))
    (party : String × DirectoryEntry) : Prop :=
  ∃ message signature, sthSigningMessage H sth.core = .ok message ∧
    H.hybridVerify message signature party.2 = true ∧
    ∃ w ∈ sth.witnesses,
      externalWitness H directory w = .ok (some (party.1, .entry party.2, some signature))

end

variable {H : Host} {directory : List (String × DirectoryEntry)}

private theorem witnessCounts_eq (message : Bytes) (w : JsValue) :
    witnessCounts H message directory w =
      (cosigner? H message directory w).map Option.isSome := by
  rw [witnessCounts, cosigner?]
  cases externalWitness H directory w with
  | error e => rfl
  | ok witness =>
    rw [ok_bind, ok_bind]
    rcases witness with _ | ⟨id, key, _ | signature⟩
    · rfl
    · cases key <;> rfl
    · cases key with
      | absent | inherited => rfl
      | entry key =>
        cases hverify : H.hybridVerify message signature key <;>
          simp only [CarriedKey.verifies, hverify, if_true, Bool.false_eq_true, if_false] <;> rfl

private theorem witnessVote_eq (message : Bytes) (w : JsValue) :
    (witnessVote H message directory w).map (fun v => decide (v = .external)) =
      witnessCounts H message directory w := by
  rw [witnessVote, witnessCounts]
  cases externalWitness H directory w with
  | error e => rfl
  | ok witness =>
    rw [ok_bind, ok_bind]
    rcases witness with _ | ⟨id, key, _ | signature⟩
    · rfl
    · rfl
    · cases hverify : key.verifies H message signature <;>
        simp only [hverify, if_true, Bool.false_eq_true, if_false] <;> rfl

theorem count_isSome {α : Type} (l : List (Option α)) :
    (l.map Option.isSome).count true = l.reduceOption.length := by
  induction l with
  | nil => rfl
  | cons a l ih =>
    cases a <;> simp [ih, List.reduceOption_cons_of_some, List.reduceOption_cons_of_none]

private theorem count_external (votes : List WitnessVote) :
    (votes.map fun v => decide (v = .external)).count true = votes.count .external := by
  induction votes with
  | nil => rfl
  | cons v votes ih => cases v <;> simp [ih]

/-- The verifier counts the cosigners. -/
theorem countExternal_eq (sth : HeadFields) :
    countExternal H sth directory = (cosigners H sth directory).map List.length := by
  rw [countExternal, cosigners]
  cases sthSigningMessage H sth.core with
  | error e => rfl
  | ok message =>
    rw [ok_bind, ok_bind, funext (witnessCounts_eq message), mapM_map]
    cases sth.witnesses.mapM (cosigner? H message directory) with
    | error e => rfl
    | ok found => exact congrArg Except.ok (count_isSome found)

/-! ## Receipts -/

/-- A receipt carries a tree head, beside a key directory. -/
structure CarriesHead (receipt : JsValue) (head : HeadFields)
    (directory : List (String × DirectoryEntry)) : Prop where
  sth : receipt.read "sth" >>= readHead = .ok head
  keys : receipt.read "key_directory" >>= readDirectory = .ok directory

/-- At least `t` parties with distinct ids and distinct keys have done something. -/
def AtLeast (t : JsNumber) (did : String × DirectoryEntry → Prop) : Prop :=
  ∃ parties, Entries.Independent parties ∧ t.le (.ofInt parties.length) = true ∧
    ∀ party ∈ parties, did party

/-- Fewer parties are there where more are. -/
theorem AtLeast.mono {s t : JsNumber} {did : String × DirectoryEntry → Prop} (h : AtLeast t did)
    (hle : s.le t = true) : AtLeast s did := by
  obtain ⟨parties, hindependent, hlength, hdid⟩ := h
  exact ⟨parties, hindependent, JsNumber.le_trans hle hlength, hdid⟩

theorem CarriesHead.unique {receipt : JsValue} {head head' : HeadFields}
    {directory directory' : List (String × DirectoryEntry)} (h : CarriesHead receipt head directory)
    (h' : CarriesHead receipt head' directory') : head = head' ∧ directory = directory' := by
  have hsth := h.sth.symm.trans h'.sth
  have hkeys := h.keys.symm.trans h'.keys
  cases hsth
  cases hkeys
  exact ⟨rfl, rfl⟩

/-- What can be read as a tree head counts as present. -/
theorem truthy_of_readHead {v : JsValue} {head : HeadFields} (h : readHead v = .ok head) :
    v.truthy = true := by
  cases v with
  | object _ | custom _ => rfl
  | _ =>
    simp only [readHead, bind_eq_ok] at h
    obtain ⟨_, ⟨w, hread, htext⟩, _⟩ := h
    cases hread <;> cases htext

/-- The counter counts the cosigners of the tree head a receipt carries. -/
theorem countWitnesses_external {receipt : JsValue} {counts : WitnessCounts}
    (h : countWitnesses H receipt = .ok counts) {head : HeadFields}
    (hcarries : CarriesHead receipt head directory) :
    ∃ cs, cosigners H head directory = .ok cs ∧ counts.external = cs.length := by
  obtain ⟨sth, hsth, hhead⟩ := bind_eq_ok.mp hcarries.sth
  have htruthy := truthy_of_readHead hhead
  rw [countWitnesses, hsth, ok_bind] at h
  simp only [htruthy, Bool.not_true, Bool.false_eq_true, if_false] at h
  rw [hhead, ok_bind, hcarries.keys, ok_bind] at h
  obtain ⟨message, hmessage, h⟩ := bind_eq_ok.mp h
  obtain ⟨votes, hvotes, h⟩ := bind_eq_ok.mp h
  cases h
  have hlength : countExternal H head directory = .ok (votes.count .external) := by
    rw [countExternal, hmessage, ok_bind, ← funext (witnessVote_eq message), mapM_map, hvotes]
    exact congrArg Except.ok (count_external votes)
  rw [countExternal_eq] at hlength
  obtain ⟨cs, hcs, hcount⟩ := ok_of_map_eq hlength
  exact ⟨cs, hcs, hcount.symm⟩

end CoolSdk
