import Encoders.Lib.Run

/-!
# The security manager and its helper

`SecurityManager.cpp`, `Certificate.cpp`: the manager keeps certificates in five stores and hands
to a helper thread, in a queue, the certificates and data objects whose signatures are to be
verified. A certificate is an object of its own that several stores and tasks refer to; once it is
marked as verified it stays so.

What openssl does is a parameter, and so is what Charm and the file system answer and the order in
which a hash map is passed through. A step is one iteration of the loop over the certificates that a
data object carries, one handler of the manager, one task of the helper, or one result that comes
back; the mutex of the stores keeps these apart. Requests and responses are those that were
decrypted under the secret shared with the node they name.
-/

namespace Encoders.Security

open Encoders.Lib

/-! ## Certificates -/

/-- An X.509 certificate: what the code reads of it, and all the rest with its signature. -/
structure X509 (Key : Type) where
  subject : String
  issuer : String
  pubKey : Key
  rest : Nat
deriving DecidableEq

/-- `class Certificate` -/
structure Certificate (Key : Type) where
  x : X509 Key
  verified : Bool
deriving DecidableEq

/-- openssl: `X509_verify`, `X509_sign`, `RSA_verify` and `RSA_sign`. -/
structure Crypto (Key PrivKey Sig : Type) where
  x509Verify : X509 Key → Key → Bool
  x509Sign : X509 Key → PrivKey → Option Nat
  rsaVerify : List UInt8 → Sig → Key → Bool
  rsaSign : List UInt8 → PrivKey → Option Sig

/-- `CertificateStore_t`: names and references to certificates. -/
abbrev CertificateStore : Type := List (String × Nat)

/-- `retrieveCertificate` -/
def retrieveCertificate (key : String) (store : CertificateStore) : Option Nat := store.lookup key

/-- `storeCertificate` -/
def storeCertificate (key : String) (cert : Nat) (store : CertificateStore) (replace : Bool) :
    CertificateStore :=
  match store.lookup key with
  | some _ => if replace then (key, cert) :: store.filter (fun p => p.1 ≠ key) else store
  | none => (key, cert) :: store

/-! ## Data objects -/

/-- `SignatureStatus_t` -/
inductive SignatureStatus where
  | missing
  | unverified
  | invalid
  | valid
deriving DecidableEq

/-- `ABEStatus_t` -/
inductive ABEStatus where
  | notNeeded
  | encryptionNeeded
  | encryptionDone
  | decryptionNeeded
  | decryptionDone
deriving DecidableEq

/-- The statuses as numbers. -/
def ABEStatus.toNat : ABEStatus → Nat
  | notNeeded => 0
  | encryptionNeeded => 1
  | encryptionDone => 2
  | decryptionNeeded => 3
  | decryptionDone => 4

/-- `class DataObject`, as far as the manager reads it; `iface` says of the interface it came from,
if it came from one, whether that is an application's. -/
structure DataObject (Sig : Type) where
  id : List UInt8
  signee : String
  signature : Option Sig
  signatureStatus : SignatureStatus
  iface : Option Bool
  nodeDescription : Bool
  control : Bool
  securityDataRequest : Bool
  securityDataResponse : Bool
  policy : Bool
  capability : Bool
  hasData : Bool
  isForLocalApp : Bool
  duplicate : Bool
  abeStatus : ABEStatus

namespace DataObject

variable {Sig : Type}

/-- `isSigned` -/
def isSigned (d : DataObject Sig) : Bool := d.signatureStatus ≠ .missing

/-- `hasValidSignature` -/
def hasValidSignature (d : DataObject Sig) : Bool := d.signatureStatus = .valid

/-- `signatureIsUnverified` -/
def signatureIsUnverified (d : DataObject Sig) : Bool := d.signatureStatus = .unverified

/-- `shouldSign` -/
def shouldSign (d : DataObject Sig) : Bool := !d.isSigned && !d.control

/-- The interface is an application's. -/
def isApplication (d : DataObject Sig) : Bool := d.iface = some true

/-- There is an interface, and it is none. -/
def fromPeer (d : DataObject Sig) : Bool := d.iface = some false

/-- The signature's status of an object whose metadata have just been read. -/
def read (d : DataObject Sig) : DataObject Sig :=
  { d with signatureStatus := if d.signature.isSome then .unverified else .missing }

/-- `copy`, of an object that is to be encrypted -/
def copy (d : DataObject Sig) : DataObject Sig :=
  { d with duplicate := false, abeStatus := .encryptionNeeded }

/-- There is an encrypted file. -/
def isEncrypted (d : DataObject Sig) : Bool :=
  decide (d.abeStatus.toNat ≥ ABEStatus.encryptionDone.toNat)

end DataObject

/-! ## The manager -/

/-- `SecurityLevel_t` -/
inductive SecurityLevel where
  | low
  | medium
  | high
  | veryHigh
deriving DecidableEq

/-- The levels as numbers. -/
def SecurityLevel.toNat : SecurityLevel → Nat
  | low => 0
  | medium => 1
  | high => 2
  | veryHigh => 3

/-- What `onConfig` has set. -/
structure Config where
  thisNode : String
  securityLevel : SecurityLevel
  signNodeDescriptions : Bool
  encryptFilePayload : Bool
  isAuthority : Bool
  certificationACL : String → Bool
  rawNodeSharedSecretMap : String → Bool

/-- `class SecurityTask`, by its type; the keys are those that were generated. -/
inductive Task (Key PrivKey : Type) where
  | generateCertificate (keys : Option (PrivKey × Key))
  | verifyCertificate (cert : Nat)
  | verifyDataObject (dObj : Nat)
  | signDataObject (dObj : Nat)
  | generateCapability (dObj : Nat)
  | encryptDataObject (dObj : Nat)
  | verifyAuthorityCertificate (cert : Nat)

/-- The order in which a step passes through the hash maps, which may be any. -/
structure Passing where
  stores : CertificateStore → CertificateStore
  waiting : List Nat → List Nat
  stores_perm : ∀ store, (stores store).Perm store
  waiting_perm : ∀ dObjs, (waiting dObjs).Perm dObjs

/-- In the order of the lists. -/
def Passing.asListed : Passing := ⟨id, id, List.Perm.refl, List.Perm.refl⟩

/-- What becomes of a capability: Python, memory or Charm fails or too many requests are under way,
public keys of the policy are missing, or there is one. -/
inductive Capability where
  | failed
  | keysMissing
  | generated

/-- What a task finds outside the manager: the certificates in the node description that the
signee's node has so far, if there is such a node; the keys that openssl makes; the capability; the
object's id once it is encrypted, if it can be; and the order of the hash maps. -/
structure Answers (Key PrivKey : Type) where
  oldCertificates : Option (List (X509 Key))
  keys : Option (PrivKey × Key)
  capability : Capability
  encryptedId : Option (List UInt8)
  pass : Passing

/-- The events that the manager adds to the kernel's queue. -/
inductive Out where
  | verified (dObj : Nat)
  | deleted (dObj : Nat)
  | send (dObj : Nat)
deriving DecidableEq

/--
What trust rests on, noted beside the code, which does not read it: all certificates that there have
been, those given as an authority's, those that came back from the repository under the name of
their issuer, the keys that this node has had, and the keys that nodes have asked it to certify.
-/
structure Grounds (Key : Type) where
  met : List (X509 Key)
  authorities : List (X509 Key)
  restored : List (X509 Key)
  ownKeys : List Key
  requests : List (String × Key)

/--
`class SecurityManager` with its helper. Certificates and data objects are numbered; `copies` has
those that the manager has copied to encrypt them, `incoming` and `received` those whose events have
come.
-/
structure SecurityManager (Key PrivKey Sig : Type) where
  certs : List (Certificate Key)
  certStore : CertificateStore
  caCerts : CertificateStore
  myCerts : CertificateStore
  remoteSignedCerts : CertificateStore
  caCertCache : CertificateStore
  myCert : Option Nat
  privKey : Option PrivKey
  pubKey : Option Key
  objects : List (DataObject Sig)
  copies : List Nat
  waitingForPubKey : List Nat
  incoming : List Nat
  received : List Nat
  tasks : List (Task Key PrivKey)
  completed : List (Task Key PrivKey)
  events : List Out
  grounds : Grounds Key

namespace SecurityManager

variable {Key PrivKey Sig : Type} [DecidableEq Key]

/-- A manager as it is made. -/
def init : SecurityManager Key PrivKey Sig where
  certs := []
  certStore := []
  caCerts := []
  myCerts := []
  remoteSignedCerts := []
  caCertCache := []
  myCert := none
  privKey := none
  pubKey := none
  objects := []
  copies := []
  waitingForPubKey := []
  incoming := []
  received := []
  tasks := []
  completed := []
  events := []
  grounds := ⟨[], [], [], [], []⟩

/-- `fromPEM`, or a constructor: a new certificate, not verified; its number is the length. -/
def newCertificate (s : SecurityManager Key PrivKey Sig) (x : X509 Key) :
    SecurityManager Key PrivKey Sig :=
  { s with
    certs := s.certs ++ [⟨x, false⟩]
    grounds := { s.grounds with met := s.grounds.met ++ [x] } }

/-- The number that a certificate made now gets. -/
def next (s : SecurityManager Key PrivKey Sig) : Nat := s.certs.length

/-- `addTask` -/
def addTask (s : SecurityManager Key PrivKey Sig) (t : Task Key PrivKey) :
    SecurityManager Key PrivKey Sig :=
  { s with tasks := s.tasks ++ [t] }

/-- `kernel->addEvent` -/
def addEvent (s : SecurityManager Key PrivKey Sig) (e : Out) : SecurityManager Key PrivKey Sig :=
  { s with events := s.events ++ [e] }

/-- `verifySignature` of a certificate, which is verified once and for all. -/
def verifySignature (crypto : Crypto Key PrivKey Sig) (s : SecurityManager Key PrivKey Sig)
    (cert : Nat) (key : Key) : SecurityManager Key PrivKey Sig :=
  { s with certs := s.certs.modify cert (fun c =>
      if c.verified then c else { c with verified := crypto.x509Verify c.x key }) }

/-- `isVerified`, of a certificate that is there. -/
def isVerified (s : SecurityManager Key PrivKey Sig) (cert : Nat) : Bool :=
  (s.certs[cert]?).any Certificate.verified

/-- The certificate is stored among those of authorities. -/
def storeAuthority (s : SecurityManager Key PrivKey Sig) (key : String) (cert : Nat)
    (replace : Bool) : SecurityManager Key PrivKey Sig :=
  let given := (s.certs[cert]?).toList.map Certificate.x
  { s with
    caCerts := storeCertificate key cert s.caCerts replace
    grounds := { s.grounds with authorities := s.grounds.authorities ++ given } }

/-- The keys become this node's. -/
def setKeys (s : SecurityManager Key PrivKey Sig) (priv : PrivKey) (pub : Key) :
    SecurityManager Key PrivKey Sig :=
  { s with
    privKey := some priv
    pubKey := some pub
    grounds := { s.grounds with ownKeys := s.grounds.ownKeys ++ [pub] } }

/-! ## Configuration -/

/-- One certificate of `configureCertificates`, for this node's own ones or for authorities. -/
def configureCertificate (cfg : Config) (s : SecurityManager Key PrivKey Sig) (mine : Bool)
    (x : X509 Key) : SecurityManager Key PrivKey Sig :=
  let cert := s.next
  let s := s.newCertificate x
  let s := if mine ∧ x.subject = x.issuer ∧ x.issuer = cfg.thisNode then
    { s with myCert := some cert } else s
  let s := { s with certStore := storeCertificate x.subject cert s.certStore false }
  if mine then { s with myCerts := storeCertificate x.issuer cert s.myCerts false }
  else s.storeAuthority x.issuer cert false

/-- The branch of `onConfig` for a key pair. -/
def configureKeyPair (crypto : Crypto Key PrivKey Sig) (cfg : Config)
    (s : SecurityManager Key PrivKey Sig) (priv : PrivKey) (pub : Key) :
    SecurityManager Key PrivKey Sig :=
  let s := s.setKeys priv pub
  match s.myCert with
  | some _ => s
  | none =>
      let x : X509 Key := ⟨cfg.thisNode, cfg.thisNode, pub, 0⟩
      let signed := crypto.x509Sign x priv
      let cert := s.next
      let s := s.newCertificate { x with rest := signed.getD 0 }
      let s := { s with
        myCert := some cert, myCerts := storeCertificate cfg.thisNode cert s.myCerts false }
      if signed.isSome then s.verifySignature crypto cert pub else s

/-- The kinds of certificates in the repository. -/
inductive Entry where
  | cert
  | caCert
  | myCert
  | remoteSignedCert

/-- A certificate of the repository, in `onRepositoryData`. -/
def restoreCertificate (cfg : Config) (s : SecurityManager Key PrivKey Sig) (kind : Entry)
    (x : X509 Key) : SecurityManager Key PrivKey Sig :=
  let cert := s.next
  let s := s.newCertificate x
  match kind with
  | .cert =>
      let s := { s with
        certStore := storeCertificate x.issuer cert s.certStore true
        grounds := { s.grounds with restored := s.grounds.restored ++ [x] } }
      if x.subject = x.issuer ∧ x.issuer = cfg.thisNode then { s with myCert := some cert } else s
  | .caCert => s.storeAuthority x.issuer cert true
  | .myCert => { s with myCerts := storeCertificate x.issuer cert s.myCerts true }
  | .remoteSignedCert =>
      let key := x.subject ++ "|" ++ x.issuer
      { s with remoteSignedCerts := storeCertificate key cert s.remoteSignedCerts true }

/-- The keys of the repository. -/
def restoreKeys (s : SecurityManager Key PrivKey Sig) (priv : PrivKey) (pub : Key) :
    SecurityManager Key PrivKey Sig :=
  s.setKeys priv pub

/-- `postConfiguration`. Without a certificate of its own it follows a null pointer. -/
def postConfiguration (crypto : Crypto Key PrivKey Sig) (cfg : Config)
    (s : SecurityManager Key PrivKey Sig) (pass : Passing) :
    Option (SecurityManager Key PrivKey Sig) :=
  match s.pubKey, s.privKey, s.myCert with
  | some pub, some _, some cert =>
      let s := match s.certs[cert]? with
        | some c =>
            if cfg.isAuthority ∧ retrieveCertificate cfg.thisNode s.caCerts = none then
              s.storeAuthority c.x.issuer cert true
            else s
        | none => s
      let s := s.verifySignature crypto cert pub
      some { s with tasks := s.tasks ++
        (pass.stores s.caCerts).map (fun p => .verifyAuthorityCertificate p.2) }
  | some _, some _, none => none
  | _, _, _ => some (s.addTask (.generateCertificate none))

/-! ## Data objects come in -/

/-- A data object is read from a network or from an application. -/
def arrive (s : SecurityManager Key PrivKey Sig) (d : DataObject Sig) :
    SecurityManager Key PrivKey Sig :=
  { s with objects := s.objects ++ [d.read] }

/-- One certificate that a data object carries, in `onIncomingDataObject`. -/
def embedded (s : SecurityManager Key PrivKey Sig) (x : X509 Key) :
    SecurityManager Key PrivKey Sig :=
  let cert := s.next
  let known (old : Option Nat) : Bool := match old with
    | some r => (s.certs[r]?).any (fun c => c.verified && decide (c.x = x))
    | none => false
  if x.subject = x.issuer then
    if known (retrieveCertificate x.subject s.certStore) then s.newCertificate x
    else { s.newCertificate x with
      certStore := storeCertificate x.subject cert s.certStore true
      tasks := s.tasks ++ [.verifyCertificate cert] }
  else
    let key := x.subject ++ "|" ++ x.issuer
    if known (retrieveCertificate key s.remoteSignedCerts) then s.newCertificate x
    else { s.newCertificate x with
      remoteSignedCerts := storeCertificate key cert s.remoteSignedCerts true
      tasks := s.tasks ++ [.verifyCertificate cert] }

/-- No signature is asked for. -/
def lenient (cfg : Config) (d : DataObject Sig) : Bool :=
  cfg.securityLevel.toNat ≤ SecurityLevel.low.toNat ||
    (cfg.securityLevel = .medium && !d.nodeDescription) ||
    (!cfg.signNodeDescriptions && d.nodeDescription)

/-- The status of a data object's signature is set. -/
def setSignatureStatus (s : SecurityManager Key PrivKey Sig) (o : Nat) (status : SignatureStatus) :
    SecurityManager Key PrivKey Sig :=
  { s with objects := s.objects.modify o (fun d => { d with signatureStatus := status }) }

/-- `onIncomingDataObject`, after its certificates -/
def onIncomingDataObject (cfg : Config) (s : SecurityManager Key PrivKey Sig) (o : Nat)
    (d : DataObject Sig) : SecurityManager Key PrivKey Sig :=
  if d.duplicate then s
  else if lenient cfg d then s.setSignatureStatus o .valid
  else if d.isApplication && d.shouldSign then
    if decide (cfg.securityLevel.toNat ≥ SecurityLevel.high.toNat) && d.policy then s
    else s.addTask (.signDataObject o)
  else s

/-- `onReceivedDataObject`, from where it is known that nothing is to be encrypted -/
def checkSignature (cfg : Config) (s : SecurityManager Key PrivKey Sig) (o : Nat)
    (d : DataObject Sig) : SecurityManager Key PrivKey Sig :=
  let level := cfg.securityLevel.toNat
  if d.securityDataRequest && !d.nodeDescription then
    (s.setSignatureStatus o .valid).addEvent (.verified o)
  else if d.securityDataResponse && !d.nodeDescription then
    (s.setSignatureStatus o .valid).addEvent (.verified o)
  else if !d.isSigned && d.fromPeer && ((d.nodeDescription && !cfg.signNodeDescriptions) ||
      decide (level ≤ SecurityLevel.medium.toNat)) then
    (s.setSignatureStatus o .valid).addEvent (.verified o)
  else if !d.isSigned && d.fromPeer && ((d.nodeDescription && cfg.signNodeDescriptions) ||
      decide (level ≥ SecurityLevel.high.toNat)) then
    s.addEvent (.deleted o)
  else if d.signatureIsUnverified && ((d.nodeDescription && cfg.signNodeDescriptions) ||
      decide (level ≥ SecurityLevel.high.toNat)) then
    s.addTask (.verifyDataObject o)
  else s.addEvent (.verified o)

/-- The publisher of an object from an application is set. -/
def setPublisher (cfg : Config) (s : SecurityManager Key PrivKey Sig) (o : Nat)
    (d : DataObject Sig) : SecurityManager Key PrivKey Sig :=
  if d.isApplication then
    { s with objects := s.objects.modify o (fun d => { d with signee := cfg.thisNode }) }
  else s

/-- A copy of the object is made, to be encrypted under a capability. -/
def copyToEncrypt (s : SecurityManager Key PrivKey Sig) (o : Nat) :
    SecurityManager Key PrivKey Sig :=
  match s.objects[o]? with
  | some d =>
      { s with
        objects := s.objects ++ [d.copy]
        copies := s.copies ++ [s.objects.length]
        tasks := s.tasks ++ [.generateCapability s.objects.length] }
  | none => s

/-- `onReceivedDataObject` -/
def onReceivedDataObject (cfg : Config) (s : SecurityManager Key PrivKey Sig) (o : Nat)
    (d : DataObject Sig) : SecurityManager Key PrivKey Sig :=
  if d.duplicate then s
  else
    let s := s.setPublisher cfg o d
    let encrypt := decide (cfg.securityLevel.toNat ≥ SecurityLevel.veryHigh.toNat) ||
      cfg.encryptFilePayload
    if encrypt && d.policy && !d.capability && d.hasData && !d.isForLocalApp then
      if d.isApplication then s.copyToEncrypt o else s
    else s.checkSignature cfg o d

/-! ## The helper -/

/-- The self-signed certificate under this certificate's subject can be verified by its key. -/
def verifyCompanion (crypto : Crypto Key PrivKey Sig) (s : SecurityManager Key PrivKey Sig)
    (cert : Nat) : SecurityManager Key PrivKey Sig :=
  match s.certs[cert]? with
  | some c =>
      if c.verified then
        match retrieveCertificate c.x.subject s.certStore with
        | some r => s.verifySignature crypto r c.x.pubKey
        | none => s
      else s
  | none => s

/-- The certificate by whose key another one may be verified: the issuer's, if that is an authority,
or one that attests a self-signed certificate. -/
def authorityFor (s : SecurityManager Key PrivKey Sig) (pass : Passing) (x : X509 Key) :
    Option Nat :=
  match retrieveCertificate x.issuer s.caCerts with
  | some r => some r
  | none =>
      if x.issuer = x.subject then
        ((pass.stores s.remoteSignedCerts).find? (fun p => (s.certs[p.2]?).any (fun c =>
          c.verified && decide (c.x.subject = x.subject) && decide (c.x.pubKey = x.pubKey)))).map
          Prod.snd
      else none

/-- `SECURITY_TASK_VERIFY_CERTIFICATE` -/
def verifyCertificate (crypto : Crypto Key PrivKey Sig) (s : SecurityManager Key PrivKey Sig)
    (pass : Passing) (cert : Nat) : SecurityManager Key PrivKey Sig :=
  match s.certs[cert]? with
  | some c =>
      if c.verified then s
      else
        match s.authorityFor pass c.x with
        | some r =>
            match s.certs[r]? with
            | some a =>
                if a.verified then
                  (s.verifySignature crypto cert a.x.pubKey).verifyCompanion crypto cert
                else s
            | none => s
        | none => s
  | none => s

/-- The certificates of a store by this issuer that are not verified. -/
def unverifiedBy (s : SecurityManager Key PrivKey Sig) (pass : Passing) (issuer : String)
    (store : CertificateStore) : List (Task Key PrivKey) :=
  ((pass.stores store).filter (fun p => (s.certs[p.2]?).any (fun c =>
    decide (c.x.issuer = issuer) && !c.verified))).map (fun p => .verifyCertificate p.2)

/-- `verifyAuthorityCertificate`, and `SECURITY_TASK_VERIFY_AUTHORITY_CERTIFICATE` -/
def verifyAuthorityCertificate (crypto : Crypto Key PrivKey Sig)
    (s : SecurityManager Key PrivKey Sig) (pass : Passing) (cert : Nat) :
    SecurityManager Key PrivKey Sig :=
  match s.certs[cert]? with
  | some c =>
      let s := s.verifySignature crypto cert c.x.pubKey
      if s.isVerified cert then
        let s := { s with
          tasks := s.tasks ++ s.unverifiedBy pass c.x.issuer s.myCerts ++
            s.unverifiedBy pass c.x.issuer s.remoteSignedCerts }
        s.verifyCompanion crypto cert
      else s
  | none => s

/-- `verifyDataObject` -/
def verifyWith (crypto : Crypto Key PrivKey Sig) (s : SecurityManager Key PrivKey Sig) (o : Nat)
    (d : DataObject Sig) (x : X509 Key) : SecurityManager Key PrivKey Sig :=
  match d.signature with
  | some sig =>
      s.setSignatureStatus o (if crypto.rsaVerify d.id sig x.pubKey then .valid else .invalid)
  | none => s

/-- `SECURITY_TASK_VERIFY_DATAOBJECT`, with the certificates in the node description that the
signee's node has so far, if there is such a node -/
def verifyDataObject (crypto : Crypto Key PrivKey Sig) (s : SecurityManager Key PrivKey Sig)
    (o : Nat) (old : Option (List (X509 Key))) : SecurityManager Key PrivKey Sig :=
  match s.objects[o]? with
  | some d =>
      match (retrieveCertificate d.signee s.certStore).bind (fun r => s.certs[r]?) with
      | some c =>
          if c.verified then s.verifyWith crypto o d c.x
          else if d.nodeDescription then
            match old with
            | some (x :: xs) => if c.x ∈ x :: xs then s.verifyWith crypto o d c.x else s
            | some [] => s.verifyWith crypto o d c.x
            | none => s.verifyWith crypto o d c.x
          else s
      | none => s
  | none => s

/-- `signDataObject`, without signature chaining -/
def signDataObject (crypto : Crypto Key PrivKey Sig) (cfg : Config)
    (s : SecurityManager Key PrivKey Sig) (o : Nat) : SecurityManager Key PrivKey Sig :=
  match s.objects[o]?, s.privKey with
  | some d, some key =>
      match crypto.rsaSign d.id key with
      | some sig => { s with objects := s.objects.modify o (fun d =>
          { d with signee := cfg.thisNode, signature := some sig, signatureStatus := .valid }) }
      | none => s
  | _, _ => s

/-- `generateCapability` -/
def generateCapability (s : SecurityManager Key PrivKey Sig) (o : Nat) :
    Capability → SecurityManager Key PrivKey Sig
  | .failed => s
  | .keysMissing => { s with waitingForPubKey := s.waitingForPubKey ++ [o] }
  | .generated => s.addTask (.encryptDataObject o)

/-- `encryptDataObject`; an object that is signed already is not signed again, as the code takes for
an error once the file is encrypted. -/
def encryptDataObject (crypto : Crypto Key PrivKey Sig) (cfg : Config)
    (s : SecurityManager Key PrivKey Sig) (o : Nat) (encryptedId : Option (List UInt8)) :
    SecurityManager Key PrivKey Sig :=
  match s.objects[o]?, encryptedId with
  | some d, some id =>
      let s := { s with objects := s.objects.modify o (fun d =>
        { d with id := id, capability := true, abeStatus := .decryptionDone }) }
      if d.signature.isSome then s
      else if cfg.securityLevel.toNat ≥ SecurityLevel.high.toNat then s.signDataObject crypto cfg o
      else s
  | _, _ => s

/-- `updateWaitingQueues`: what waits for public keys is tried again. -/
def updateWaitingQueues (s : SecurityManager Key PrivKey Sig) (pass : Passing) :
    SecurityManager Key PrivKey Sig :=
  { s with
    tasks := s.tasks ++ (pass.waiting s.waitingForPubKey).map .generateCapability
    waitingForPubKey := [] }

/-- `doTask`, for the tasks modelled here -/
def doTask (crypto : Crypto Key PrivKey Sig) (cfg : Config) (s : SecurityManager Key PrivKey Sig)
    (answers : Answers Key PrivKey) : Task Key PrivKey → SecurityManager Key PrivKey Sig
  | .generateCertificate _ =>
      { s with completed := s.completed ++ [.generateCertificate answers.keys] }
  | .verifyCertificate r =>
      let s := s.verifyCertificate crypto answers.pass r
      { s with completed := s.completed ++ [.verifyCertificate r] }
  | .verifyDataObject o =>
      let s := s.verifyDataObject crypto o answers.oldCertificates
      { s with completed := s.completed ++ [.verifyDataObject o] }
  | .signDataObject o =>
      let s := s.signDataObject crypto cfg o
      { s with completed := s.completed ++ [.signDataObject o] }
  | .generateCapability o =>
      let s := s.generateCapability o answers.capability
      { s with completed := s.completed ++ [.generateCapability o] }
  | .encryptDataObject o =>
      let s := s.encryptDataObject crypto cfg o answers.encryptedId
      { s with completed := s.completed ++ [.encryptDataObject o] }
  | .verifyAuthorityCertificate r =>
      let s := s.verifyAuthorityCertificate crypto answers.pass r
      { s with completed := s.completed ++ [.verifyAuthorityCertificate r] }

/-! ## Results come back -/

/-- The branch of `onSecurityTaskComplete` for a certificate that was made for this node. -/
def certificateGenerated (crypto : Crypto Key PrivKey Sig) (cfg : Config)
    (s : SecurityManager Key PrivKey Sig) (pass : Passing) (priv : PrivKey) (pub : Key) :
    Option (SecurityManager Key PrivKey Sig) :=
  let x : X509 Key := ⟨cfg.thisNode, cfg.thisNode, pub, 0⟩
  let cert := s.next
  let s := s.newCertificate { x with rest := (crypto.x509Sign x priv).getD 0 }
  let s := if cfg.isAuthority then s.storeAuthority cfg.thisNode cert false else s
  let s := { s with certStore := storeCertificate cfg.thisNode cert s.certStore false }
  let s := { s.setKeys priv pub with
    myCert := some cert, myCerts := storeCertificate cfg.thisNode cert s.myCerts false }
  (s.verifySignature crypto cert pub).postConfiguration crypto cfg pass

/-- `onSecurityTaskComplete`; a certificate that was not made is a null pointer, which is
followed. -/
def onSecurityTaskComplete (crypto : Crypto Key PrivKey Sig) (cfg : Config)
    (s : SecurityManager Key PrivKey Sig) (pass : Passing) :
    Task Key PrivKey → Option (SecurityManager Key PrivKey Sig)
  | .generateCertificate (some (priv, pub)) => s.certificateGenerated crypto cfg pass priv pub
  | .generateCertificate none => none
  | .verifyDataObject o =>
      some (if (s.objects[o]?).any DataObject.hasValidSignature then s.addEvent (.verified o)
        else s.addEvent (.deleted o))
  | .signDataObject o =>
      some (if (s.objects[o]?).any DataObject.hasValidSignature then s.addEvent (.send o) else s)
  | .encryptDataObject o =>
      some (if (s.objects[o]?).any DataObject.isEncrypted then s.addEvent (.verified o) else s)
  | _ => some s

/-! ## Requests and responses -/

/-- `signCertificate`, for a request that came under the subject's secret -/
def signCertificate (crypto : Crypto Key PrivKey Sig) (cfg : Config)
    (s : SecurityManager Key PrivKey Sig) (subject : String) (pubKey : Key) :
    SecurityManager Key PrivKey Sig :=
  if !cfg.certificationACL subject then s
  else if (retrieveCertificate subject s.caCertCache).isSome then s
  else
    match s.privKey, s.pubKey with
    | some priv, some pub =>
        let x : X509 Key := ⟨subject, cfg.thisNode, pubKey, 0⟩
        match crypto.x509Sign x priv with
        | some sig =>
            let cert := s.next
            let s := s.newCertificate { x with rest := sig }
            let s := { s with
              grounds := { s.grounds with requests := s.grounds.requests ++ [(subject, pubKey)] } }
            let s := s.verifySignature crypto cert pub
            let key := subject ++ "|" ++ cfg.thisNode
            let s := { s with
              remoteSignedCerts := storeCertificate key cert s.remoteSignedCerts true }
            let s := match retrieveCertificate subject s.certStore with
              | some r => s.verifySignature crypto r pubKey
              | none => s
            { s with caCertCache := storeCertificate subject cert s.caCertCache true }
        | none => s
    | _, _ => s

/-- The certificates of `handleSecurityDataResponse`, for a response that came under the secret
shared with the node `authorityID` -/
def handleCertificateResponse (cfg : Config) (s : SecurityManager Key PrivKey Sig)
    (signee authorityID subject authID : String) (cert issuerCert : Option (X509 Key)) :
    SecurityManager Key PrivKey Sig :=
  if authorityID.length ≠ 40 then s
  else if cfg.securityLevel.toNat ≥ SecurityLevel.high.toNat ∧ authorityID ≠ signee ∧
      cfg.isAuthority = true ∧ authorityID ≠ cfg.thisNode then s
  else if !cfg.rawNodeSharedSecretMap authorityID then s
  else if subject ≠ cfg.thisNode ∨ authID ≠ authorityID then s
  else
    match cert with
    | some x =>
        if x.subject ≠ subject ∨ x.issuer ≠ authID then s
        else
          let r := s.next
          let s := s.newCertificate x
          let s := { s with myCerts := storeCertificate authID r s.myCerts true }
          match issuerCert with
          | some y =>
              if y.subject ≠ authID ∨ y.issuer ≠ authID then s
              else
                let r := s.next
                ((s.newCertificate y).storeAuthority authID r true).addTask
                  (.verifyAuthorityCertificate r)
          | none => s
    | none => s

/-! ## Steps -/

/-- The steps of manager and helper. -/
inductive Step (Key PrivKey Sig : Type) where
  | configureCertificate (mine : Bool) (x : X509 Key)
  | configureKeyPair (priv : PrivKey) (pub : Key)
  | restoreCertificate (kind : Entry) (x : X509 Key)
  | restoreKeys (priv : PrivKey) (pub : Key)
  | postConfiguration (pass : Passing)
  | arrive (d : DataObject Sig)
  | embedded (x : X509 Key)
  | incoming (o : Nat)
  | received (o : Nat)
  | doTask (answers : Answers Key PrivKey)
  | complete (i : Nat) (pass : Passing)
  | updateWaitingQueues (pass : Passing)
  | signCertificate (subject : String) (pubKey : Key)
  | certificateResponse (signee authorityID subject authID : String)
      (cert issuerCert : Option (X509 Key))

/-- One step. The events of a data object come once each, for an object that has come and is no
copy; the helper takes the first task; the results come back in any order. -/
def step (crypto : Crypto Key PrivKey Sig) (cfg : Config) (s : SecurityManager Key PrivKey Sig) :
    Step Key PrivKey Sig → Option (SecurityManager Key PrivKey Sig)
  | .configureCertificate mine x => some (s.configureCertificate cfg mine x)
  | .configureKeyPair priv pub => some (s.configureKeyPair crypto cfg priv pub)
  | .restoreCertificate kind x => some (s.restoreCertificate cfg kind x)
  | .restoreKeys priv pub => some (s.restoreKeys priv pub)
  | .postConfiguration pass => s.postConfiguration crypto cfg pass
  | .arrive d => some (s.arrive d)
  | .embedded x => some (s.embedded x)
  | .incoming o =>
      match s.objects[o]? with
      | some d =>
          if o ∈ s.incoming ∨ o ∈ s.copies then none
          else some ({ s with incoming := s.incoming ++ [o] }.onIncomingDataObject cfg o d)
      | none => none
  | .received o =>
      match s.objects[o]? with
      | some d =>
          if o ∈ s.received ∨ o ∈ s.copies then none
          else some ({ s with received := s.received ++ [o] }.onReceivedDataObject cfg o d)
      | none => none
  | .doTask answers =>
      match s.tasks with
      | t :: rest => some ({ s with tasks := rest }.doTask crypto cfg answers t)
      | [] => none
  | .complete i pass =>
      match s.completed[i]? with
      | some t =>
          { s with completed := s.completed.eraseIdx i }.onSecurityTaskComplete crypto cfg pass t
      | none => none
  | .updateWaitingQueues pass => some (s.updateWaitingQueues pass)
  | .signCertificate subject pubKey => some (s.signCertificate crypto cfg subject pubKey)
  | .certificateResponse signee authorityID subject authID cert issuerCert =>
      some (s.handleCertificateResponse cfg signee authorityID subject authID cert issuerCert)

end SecurityManager

end Encoders.Security
