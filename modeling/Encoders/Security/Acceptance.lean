import Encoders.Security.Trust

/-!
# What becomes of a data object that comes in

A data object whose signature the node wants to see is accepted only with one that was made by the
key of a certificate in the store under its signee, whatever else goes on between its arrival and
the verdict. Only a few of the manager's functions touch data objects, their tasks and the events;
`Quiet` is what all others do.
-/

namespace Encoders.Security

open Encoders.Lib

variable {Key PrivKey Sig : Type}

theorem Grounds.Le.trans {g g' g'' : Grounds Key} (h : g.Le g') (h' : g'.Le g'') : g.Le g'' :=
  ⟨fun x hx => h'.met x (h.met x hx), fun x hx => h'.authorities x (h.authorities x hx),
    fun x hx => h'.restored x (h.restored x hx), fun k hk => h'.ownKeys k (h.ownKeys k hk),
    fun p hp => h'.requests p (h.requests p hp)⟩

/-- The task is about a data object. -/
def Task.onObject : Task Key PrivKey → Bool
  | verifyDataObject _ => true
  | signDataObject _ => true
  | generateCapability _ => true
  | encryptDataObject _ => true
  | _ => false

namespace SecurityManager

/-! ## What leaves data objects alone -/

/-- Nothing happens to data objects. -/
structure Quiet (s s' : SecurityManager Key PrivKey Sig) : Prop where
  objects : s'.objects = s.objects
  copies : s'.copies = s.copies
  waiting : s'.waitingForPubKey = s.waitingForPubKey
  received : s'.received = s.received
  events : s'.events = s.events
  tasks : s'.tasks.filter Task.onObject = s.tasks.filter Task.onObject
  completed : s'.completed.filter Task.onObject = s.completed.filter Task.onObject
  grounds : s.grounds.Le s'.grounds

theorem Quiet.refl (s : SecurityManager Key PrivKey Sig) : s.Quiet s :=
  ⟨rfl, rfl, rfl, rfl, rfl, rfl, rfl, Grounds.Le.refl s.grounds⟩

theorem Quiet.trans {s s' s'' : SecurityManager Key PrivKey Sig} (h : s.Quiet s')
    (h' : s'.Quiet s'') : s.Quiet s'' :=
  ⟨h'.objects.trans h.objects, h'.copies.trans h.copies, h'.waiting.trans h.waiting,
    h'.received.trans h.received, h'.events.trans h.events, h'.tasks.trans h.tasks,
    h'.completed.trans h.completed, h.grounds.trans h'.grounds⟩

variable {crypto : Crypto Key PrivKey Sig} {cfg : Config} (s : SecurityManager Key PrivKey Sig)

theorem quiet_addTasks {ts : List (Task Key PrivKey)} (hts : ∀ t ∈ ts, t.onObject = false) :
    s.Quiet { s with tasks := s.tasks ++ ts } := by
  refine { Quiet.refl s with tasks := ?_ }
  have hnone : ts.filter Task.onObject = [] :=
    List.filter_eq_nil_iff.mpr fun t ht => by simp [hts t ht]
  rw [List.filter_append, hnone, List.append_nil]

theorem quiet_addTask {t : Task Key PrivKey} (ht : t.onObject = false) : s.Quiet (s.addTask t) :=
  s.quiet_addTasks fun _ hu => List.mem_singleton.mp hu ▸ ht

theorem quiet_newCertificate (x : X509 Key) : s.Quiet (s.newCertificate x) :=
  { Quiet.refl s with grounds := s.le_newCertificate x }

theorem quiet_verifySignature (r : Nat) (k : Key) : s.Quiet (s.verifySignature crypto r k) :=
  { Quiet.refl s with }

theorem quiet_storeAuthority (key : String) (cert : Nat) (replace : Bool) :
    s.Quiet (s.storeAuthority key cert replace) :=
  { Quiet.refl s with
    grounds := { Grounds.Le.refl s.grounds with authorities := fun _ => List.mem_append_left _ } }

theorem quiet_setKeys (priv : PrivKey) (pub : Key) : s.Quiet (s.setKeys priv pub) :=
  { Quiet.refl s with
    grounds := { Grounds.Le.refl s.grounds with ownKeys := fun _ => List.mem_append_left _ } }

theorem quiet_configureCertificate (mine : Bool) (x : X509 Key) :
    s.Quiet (s.configureCertificate cfg mine x) := by
  unfold configureCertificate
  extract_lets cert s₁ s₂ s₃
  have h₃ : s.Quiet s₃ := by
    refine (s.quiet_newCertificate x).trans ?_
    unfold s₃ s₂
    split
    · exact { Quiet.refl s₁ with }
    · exact { Quiet.refl s₁ with }
  split
  · exact { h₃ with }
  · exact h₃.trans (quiet_storeAuthority s₃ x.issuer cert false)

theorem quiet_configureKeyPair (priv : PrivKey) (pub : Key) :
    s.Quiet (s.configureKeyPair crypto cfg priv pub) := by
  unfold configureKeyPair
  extract_lets s₁ x signed cert s₂ s₃
  have h₁ : s.Quiet s₁ := s.quiet_setKeys priv pub
  split
  · exact h₁
  · have h₃ : s.Quiet s₃ := { h₁.trans (quiet_newCertificate s₁ _) with }
    split
    · exact { h₃ with }
    · exact h₃

theorem quiet_restoreCertificate (kind : Entry) (x : X509 Key) :
    s.Quiet (s.restoreCertificate cfg kind x) := by
  have hnew := s.quiet_newCertificate x
  unfold restoreCertificate
  cases kind with
  | cert =>
      extract_lets cert s₁ g s₂
      have h₂ : s.Quiet s₂ := hnew.trans { Quiet.refl s₁ with
        grounds := { Grounds.Le.refl s₁.grounds with
          restored := fun _ => List.mem_append_left _ } }
      dsimp only
      split
      · exact { h₂ with }
      · exact h₂
  | caCert => exact hnew.trans (quiet_storeAuthority (s.newCertificate x) x.issuer s.next true)
  | myCert => exact { hnew with }
  | remoteSignedCert => exact { hnew with }

theorem quiet_postConfiguration {pass : Passing} {s' : SecurityManager Key PrivKey Sig}
    (hs : s.postConfiguration crypto cfg pass = some s') : s.Quiet s' := by
  unfold postConfiguration at hs
  split at hs
  · rename_i pub priv cert hpub hpriv hcert
    extract_lets s₁ s₂ at hs
    cases hs
    have h₁ : s.Quiet s₁ := by
      unfold s₁
      split
      · split
        · exact s.quiet_storeAuthority _ cert true
        · exact Quiet.refl s
      · exact Quiet.refl s
    refine (h₁.trans (quiet_verifySignature s₁ cert pub)).trans (quiet_addTasks s₂ ?_)
    intro t ht
    obtain ⟨p, -, rfl⟩ := List.mem_map.mp ht
    rfl
  · cases hs
  · cases hs
    exact quiet_addTask s rfl

theorem quiet_embedded [DecidableEq Key] (x : X509 Key) : s.Quiet (s.embedded x) := by
  have hnew := s.quiet_newCertificate x
  have hone : s.Quiet ((s.newCertificate x).addTask (.verifyCertificate s.next)) :=
    hnew.trans (quiet_addTask _ rfl)
  unfold embedded
  dsimp only
  split_ifs
  · exact hnew
  · exact { hone with }
  · exact hnew
  · exact { hone with }

theorem quiet_verifyCompanion (cert : Nat) : s.Quiet (s.verifyCompanion crypto cert) := by
  unfold verifyCompanion
  split
  · split
    · split
      · exact s.quiet_verifySignature _ _
      · exact Quiet.refl s
    · exact Quiet.refl s
  · exact Quiet.refl s

theorem quiet_verifyCertificate [DecidableEq Key] (pass : Passing) (cert : Nat) :
    s.Quiet (s.verifyCertificate crypto pass cert) := by
  unfold verifyCertificate
  split
  · split
    · exact Quiet.refl s
    · split
      · split
        · split
          · exact (s.quiet_verifySignature _ _).trans (quiet_verifyCompanion _ cert)
          · exact Quiet.refl s
        · exact Quiet.refl s
      · exact Quiet.refl s
  · exact Quiet.refl s

theorem quiet_verifyAuthorityCertificate (pass : Passing) (cert : Nat) :
    s.Quiet (s.verifyAuthorityCertificate crypto pass cert) := by
  unfold verifyAuthorityCertificate
  split
  · rename_i c hc
    extract_lets s₁ s₂
    have h₁ : s.Quiet s₁ := s.quiet_verifySignature cert c.x.pubKey
    split
    · refine Quiet.trans (h₁.trans ?_) (quiet_verifyCompanion s₂ cert)
      unfold s₂
      rw [List.append_assoc]
      refine quiet_addTasks s₁ fun t ht => ?_
      obtain ht | ht := List.mem_append.mp ht
      · obtain ⟨p, -, rfl⟩ := List.mem_map.mp ht
        rfl
      · obtain ⟨p, -, rfl⟩ := List.mem_map.mp ht
        rfl
    · exact h₁
  · exact Quiet.refl s

theorem quiet_certificateGenerated {pass : Passing} {priv : PrivKey} {pub : Key}
    {s' : SecurityManager Key PrivKey Sig}
    (hs : s.certificateGenerated crypto cfg pass priv pub = some s') : s.Quiet s' := by
  unfold certificateGenerated at hs
  extract_lets x cert s₁ s₂ s₃ s₄ s₅ at hs
  have h₂ : s.Quiet s₂ := by
    have h₁ : s.Quiet s₁ := s.quiet_newCertificate _
    unfold s₂
    split
    · exact h₁.trans (quiet_storeAuthority s₁ _ cert false)
    · exact h₁
  have h₄ : s.Quiet s₄ := h₂.trans { quiet_setKeys s₃ priv pub with }
  have h₅ : s.Quiet (s₅.verifySignature crypto cert pub) := { h₄ with }
  exact h₅.trans (quiet_postConfiguration _ hs)

theorem quiet_signCertificate (subject : String) (pubKey : Key) :
    s.Quiet (s.signCertificate crypto cfg subject pubKey) := by
  unfold signCertificate
  split
  · exact Quiet.refl s
  · split
    · exact Quiet.refl s
    · split
      · extract_lets x cert key
        split
        · extract_lets s₀ g s₁ s₂ s₃ s₄
          have h₁ : s.Quiet s₁ := (s.quiet_newCertificate _).trans { Quiet.refl s₀ with
            grounds := { Grounds.Le.refl s₀.grounds with
              requests := fun _ => List.mem_append_left _ } }
          have h₃ : s.Quiet s₃ := { h₁ with }
          have h₄ : s.Quiet s₄ := by
            unfold s₄
            split
            · exact h₃.trans (quiet_verifySignature s₃ _ pubKey)
            · exact h₃
          exact { h₄ with }
        · exact Quiet.refl s
      · exact Quiet.refl s

theorem quiet_handleCertificateResponse (signee authorityID subject authID : String)
    (cert issuerCert : Option (X509 Key)) : s.Quiet
      (s.handleCertificateResponse cfg signee authorityID subject authID cert issuerCert) := by
  unfold handleCertificateResponse
  split_ifs
  · exact Quiet.refl s
  · exact Quiet.refl s
  · exact Quiet.refl s
  · exact Quiet.refl s
  · split
    · split
      · exact Quiet.refl s
      · extract_lets r s₁ s₂ r₂
        have h₂ : s.Quiet s₂ := { s.quiet_newCertificate _ with }
        split
        · split
          · exact h₂
          · rename_i y hy
            have h₃ := h₂.trans (quiet_newCertificate s₂ y)
            exact (h₃.trans (quiet_storeAuthority _ authID r₂ true)).trans (quiet_addTask _ rfl)
        · exact h₂
    · exact Quiet.refl s

end SecurityManager

variable {d : DataObject Sig}

/-! ## Objects whose signature is to be seen -/

/-- The node wants to see the object's signature: it comes from a peer, is neither a request nor a
response, no leniency applies, and if it has no signature, the level is high enough to ask for
one. -/
structure Checked (cfg : Config) (d : DataObject Sig) : Prop where
  peer : d.fromPeer = true
  ordinary : d.nodeDescription = false →
    d.securityDataRequest = false ∧ d.securityDataResponse = false
  strict : SecurityManager.lenient cfg d = false
  asked : d.signature = none → SecurityLevel.high.toNat ≤ cfg.securityLevel.toNat

/-- What the helper has found at a task: under a name, the certificate in the store, and the
certificates in the node description that the node of that name had so far. -/
abbrev Finding (Key : Type) : Type := String → Certificate Key → Option (List (X509 Key)) → Prop

/-- The certificate is among those that the node had, if it had any. -/
def Known (old : Option (List (X509 Key))) (x : X509 Key) : Prop :=
  ∀ xs, old = some xs → xs ≠ [] → x ∈ xs

/-- The object's signature is one by the key of a certificate that was found for its signee, and was
verified, unless the object is a node description and the certificate one that is known. -/
def Signed (crypto : Crypto Key PrivKey Sig) (me : String) (g : Grounds Key)
    (found : Finding Key) (d : DataObject Sig) : Prop :=
  ∃ sig c old, d.signature = some sig ∧ found d.signee c old ∧ g.Under d.signee c.x ∧
    crypto.rsaVerify d.id sig c.x.pubKey = true ∧
    (c.verified = true → Vouched crypto me g c.x) ∧
    (c.verified = false → d.nodeDescription = true ∧ Known old c.x)

variable {crypto : Crypto Key PrivKey Sig} {cfg : Config} {found : Nat → Finding Key}

theorem Signed.mono {me : String} {g g' : Grounds Key} (hle : g.Le g') {f : Finding Key}
    (h : Signed crypto me g f d) : Signed crypto me g' f d := by
  obtain ⟨sig, c, old, hsig, hfound, hunder, hrsa, hverified, hknown⟩ := h
  exact ⟨sig, c, old, hsig, hfound, hunder.mono hle, hrsa, fun hv => (hverified hv).mono hle,
    hknown⟩

/-- What holds of such an object; `seen` says whether it has been received. -/
structure Fits (crypto : Crypto Key PrivKey Sig) (me : String) (g : Grounds Key)
    (found : Finding Key) (seen : Prop) (d : DataObject Sig) : Prop where
  missing : d.signatureStatus = .missing → d.signature = none
  valid : d.signatureStatus = .valid → Signed crypto me g found d
  fresh : ¬ seen → d.signatureStatus = .missing ∨ d.signatureStatus = .unverified

theorem Fits.mono {me : String} {g g' : Grounds Key} {f : Finding Key} {seen seen' : Prop}
    (hle : g.Le g') (hseen : seen → seen') (h : Fits crypto me g f seen d) :
    Fits crypto me g' f seen' d :=
  ⟨h.missing, fun hv => (h.valid hv).mono hle, fun hnot => h.fresh (mt hseen hnot)⟩

/-- Such an object may not be accepted without its signature. -/
theorem Checked.level (h : Checked cfg d) :
    (d.nodeDescription = true ∧ cfg.signNodeDescriptions = true) ∨
      SecurityLevel.high.toNat ≤ cfg.securityLevel.toNat := by
  have hstrict := h.strict
  unfold SecurityManager.lenient at hstrict
  cases hlevel : cfg.securityLevel <;> cases hnd : d.nodeDescription <;>
    cases hsign : cfg.signNodeDescriptions <;>
      simp_all [SecurityLevel.toNat]

theorem Checked.not_lenient (h : Checked cfg d) :
    ¬ (d.nodeDescription = true ∧ cfg.signNodeDescriptions = false) := by
  rintro ⟨hnd, hsign⟩
  have hstrict := h.strict
  simp [SecurityManager.lenient, hnd, hsign] at hstrict

namespace SecurityManager

variable {s : SecurityManager Key PrivKey Sig}
variable {s' : SecurityManager Key PrivKey Sig} {o : Nat} {d : DataObject Sig}
variable {f : DataObject Sig → DataObject Sig} {old : Option (List (X509 Key))}
  {rest : List (Task Key PrivKey)}
  {t : Task Key PrivKey}

/-- The store has this certificate under this name. -/
def Stored (s : SecurityManager Key PrivKey Sig) (n : String) (c : Certificate Key) : Prop :=
  ∃ r, retrieveCertificate n s.certStore = some r ∧ s.certs[r]? = some c

/-- The object is from no peer. -/
def Local (s : SecurityManager Key PrivKey Sig) (o : Nat) : Prop :=
  ∃ d, s.objects[o]? = some d ∧ d.fromPeer = false

/-- The object is to be signed, or on its way to be encrypted. -/
inductive Handles (s : SecurityManager Key PrivKey Sig) (o : Nat) : Prop
  | sign : .signDataObject o ∈ s.tasks → Handles s o
  | wait : o ∈ s.waitingForPubKey → Handles s o
  | capability : .generateCapability o ∈ s.tasks → Handles s o
  | encrypt : .encryptDataObject o ∈ s.tasks → Handles s o
  | encrypted : .encryptDataObject o ∈ s.completed → Handles s o

/-- The objects whose signature is to be seen, and those that were accepted, are as they have to
be, and what the node signs or encrypts is its own. -/
structure Sound (crypto : Crypto Key PrivKey Sig) (cfg : Config)
    (found : Nat → Finding Key) (s : SecurityManager Key PrivKey Sig) : Prop where
  objects : ∀ o d, s.objects[o]? = some d → Checked cfg d →
    Fits crypto cfg.thisNode s.grounds (found o) (o ∈ s.received) d
  events : ∀ o, .verified o ∈ s.events → ∃ d, s.objects[o]? = some d ∧
    (Checked cfg d → Signed crypto cfg.thisNode s.grounds (found o) d)
  verifyTasks : ∀ o, .verifyDataObject o ∈ s.tasks → o ∈ s.received
  own : ∀ o, s.Handles o → s.Local o

/-- What is handled has been handled before. -/
theorem Handles.of_subset (h : s'.Handles o)
    (htasks : ∀ t ∈ s'.tasks, t.onObject = true → t ∈ s.tasks)
    (hwaiting : ∀ o ∈ s'.waitingForPubKey, o ∈ s.waitingForPubKey)
    (hcompleted : ∀ t ∈ s'.completed, t.onObject = true → t ∈ s.completed) : s.Handles o := by
  cases h with
  | sign ho => exact .sign (htasks _ ho rfl)
  | wait ho => exact .wait (hwaiting o ho)
  | capability ho => exact .capability (htasks _ ho rfl)
  | encrypt ho => exact .encrypt (htasks _ ho rfl)
  | encrypted ho => exact .encrypted (hcompleted _ ho rfl)

/-- The queues are the same. -/
theorem Handles.congr (h : s'.Handles o) (htasks : s'.tasks = s.tasks)
    (hwaiting : s'.waitingForPubKey = s.waitingForPubKey) (hcompleted : s'.completed = s.completed)
    : s.Handles o :=
  h.of_subset (fun _ ht _ => htasks ▸ ht) (fun _ ho => hwaiting ▸ ho) fun _ ht _ => hcompleted ▸ ht

theorem mem_of_filter_eq {ts ts' : List (Task Key PrivKey)}
    (heq : ts'.filter Task.onObject = ts.filter Task.onObject) (t : Task Key PrivKey)
    (ht : t ∈ ts') (hobject : t.onObject = true) : t ∈ ts :=
  (List.mem_filter.mp (heq ▸ List.mem_filter.mpr ⟨ht, hobject⟩)).1

theorem Sound.quiet (h : s.Sound crypto cfg found) (hquiet : s.Quiet s') :
    s'.Sound crypto cfg found := by
  refine ⟨fun o d hd hchecked => ?_, fun o ho => ?_, fun o ho => ?_, fun o ho => ?_⟩
  · rw [hquiet.objects] at hd
    rw [hquiet.received]
    exact (h.objects o d hd hchecked).mono hquiet.grounds id
  · rw [hquiet.events] at ho
    obtain ⟨d, hd, hsigned⟩ := h.events o ho
    exact ⟨d, hquiet.objects ▸ hd, fun hchecked => (hsigned hchecked).mono hquiet.grounds⟩
  · rw [hquiet.received]
    exact h.verifyTasks o (mem_of_filter_eq hquiet.tasks _ ho rfl)
  · have hold := ho.of_subset (mem_of_filter_eq hquiet.tasks) (fun _ ho => hquiet.waiting ▸ ho)
      (mem_of_filter_eq hquiet.completed)
    obtain ⟨d, hd, hlocal⟩ := h.own o hold
    exact ⟨d, hquiet.objects ▸ hd, hlocal⟩

/-- Just read, an object has been checked by nobody. -/
theorem fits_read (crypto : Crypto Key PrivKey Sig) (me : String) (g : Grounds Key)
    (found : Finding Key) (seen : Prop) (d : DataObject Sig) :
    Fits crypto me g found seen d.read := by
  cases hsig : d.signature with
  | none => exact ⟨fun _ => hsig, fun h => by simp [DataObject.read, hsig] at h,
      fun _ => .inl (by simp [DataObject.read, hsig])⟩
  | some sig => exact ⟨fun h => by simp [DataObject.read, hsig] at h,
      fun h => by simp [DataObject.read, hsig] at h,
      fun _ => .inr (by simp [DataObject.read, hsig])⟩

/-- There is one object more, at the end. -/
theorem Sound.append (h : s.Sound crypto cfg found)
    (hd : Checked cfg d → Fits crypto cfg.thisNode s.grounds (found s.objects.length)
      (s.objects.length ∈ s.received) d) :
    { s with objects := s.objects ++ [d] }.Sound crypto cfg found := by
  have hold : ∀ (o : Nat) (d' : DataObject Sig), s.objects[o]? = some d' →
      (s.objects ++ [d])[o]? = some d' := by
    intro o d' hd'
    rw [List.getElem?_append_left (List.getElem?_eq_some_iff.mp hd').1]
    exact hd'
  refine ⟨fun o d' hd' hchecked => ?_, fun o ho => ?_, h.verifyTasks, fun o ho => ?_⟩
  · obtain hlt | rfl | hgt := Nat.lt_trichotomy o s.objects.length
    · rw [List.getElem?_append_left hlt] at hd'
      exact h.objects o d' hd' hchecked
    · rw [List.getElem?_concat_length] at hd'
      obtain rfl := Option.some.inj hd'
      exact hd hchecked
    · have hlen : (s.objects ++ [d]).length ≤ o := by
        rw [List.length_append, List.length_singleton]
        exact hgt
      rw [List.getElem?_eq_none hlen] at hd'
      cases hd'
  · obtain ⟨d', hd', hsigned⟩ := h.events o ho
    exact ⟨d', hold o d' hd', hsigned⟩
  · obtain ⟨d', hd', hlocal⟩ := h.own o (ho.congr rfl rfl rfl)
    exact ⟨d', hold o d' hd', hlocal⟩

theorem Sound.arrive (h : s.Sound crypto cfg found) (d : DataObject Sig) :
    (s.arrive d).Sound crypto cfg found :=
  h.append fun _ => fits_read crypto _ _ _ _ d

/-- One object is changed, so that it is as it has to be and its signature is still to be seen only
if it was before, and as the same. -/
theorem Sound.modify (h : s.Sound crypto cfg found) (hd : s.objects[o]? = some d)
    (hpeer : (f d).fromPeer = d.fromPeer) (hfits : Checked cfg (f d) →
      Fits crypto cfg.thisNode s.grounds (found o) (o ∈ s.received) (f d))
    (hsigned : Checked cfg (f d) → Checked cfg d ∧
      (Signed crypto cfg.thisNode s.grounds (found o) d →
        Signed crypto cfg.thisNode s.grounds (found o) (f d))) :
    { s with objects := s.objects.modify o f }.Sound crypto cfg found := by
  have hget : ∀ (o' : Nat) (d' : DataObject Sig), s.objects[o']? = some d' →
      (s.objects.modify o f)[o']? = some (if o = o' then f d' else d') := by
    intro o' d' hd'
    rw [List.getElem?_modify, hd']
    split <;> rfl
  -- the object itself is the only one to look at again
  refine ⟨fun o' d' hd' hchecked => ?_, fun o' ho => ?_, h.verifyTasks, fun o' ho => ?_⟩
  · simp only [List.getElem?_modify] at hd'
    obtain ⟨d₀, hd₀, rfl⟩ := Option.map_eq_some_iff.mp hd'
    by_cases heq : o = o'
    · subst heq
      rw [hd] at hd₀
      cases hd₀
      simp only [if_true] at hchecked ⊢
      exact hfits hchecked
    · simp only [heq, if_false] at hchecked ⊢
      exact h.objects o' d₀ hd₀ hchecked
  · obtain ⟨d', hd', hold⟩ := h.events o' ho
    refine ⟨_, hget o' d' hd', ?_⟩
    by_cases heq : o = o'
    · subst heq
      rw [hd] at hd'
      cases hd'
      rw [if_pos rfl]
      exact fun hchecked => (hsigned hchecked).2 (hold (hsigned hchecked).1)
    · rw [if_neg heq]
      exact hold
  · obtain ⟨d', hd', hnot⟩ := h.own o' (ho.congr rfl rfl rfl)
    refine ⟨_, hget o' d' hd', ?_⟩
    split
    · rename_i heq
      subst heq
      rw [hd] at hd'
      cases hd'
      rw [hpeer, hnot]
    · exact hnot

/-- The status of one object's signature is set. -/
theorem Sound.setSignatureStatus (h : s.Sound crypto cfg found) (hd : s.objects[o]? = some d)
    {status : SignatureStatus}
    (hfits : Checked cfg d → Fits crypto cfg.thisNode s.grounds (found o) (o ∈ s.received)
      { d with signatureStatus := status }) :
    (s.setSignatureStatus o status).Sound crypto cfg found := by
  have hback : Checked cfg { d with signatureStatus := status } → Checked cfg d :=
    fun hchecked => ⟨hchecked.peer, hchecked.ordinary, hchecked.strict, hchecked.asked⟩
  exact h.modify hd rfl (fun hchecked => hfits (hback hchecked))
    fun hchecked => ⟨hback hchecked, fun hsigned => hsigned⟩

/-- An object that is from no peer is changed. -/
theorem Sound.modifyLocal (h : s.Sound crypto cfg found) (hd : s.objects[o]? = some d)
    (hlocal : d.fromPeer = false) (hf : (f d).fromPeer = d.fromPeer) :
    { s with objects := s.objects.modify o f }.Sound crypto cfg found := by
  have hnot : ¬ Checked cfg (f d) := fun hchecked => by
    have hpeer := hchecked.peer
    rw [hf, hlocal] at hpeer
    cases hpeer
  exact h.modify hd hf (fun hchecked => absurd hchecked hnot) fun hchecked => absurd hchecked hnot

/-- A task is added that is to verify an object that was received, or is for an object of the
node's own. -/
theorem Sound.addTask (h : s.Sound crypto cfg found)
    (hverify : ∀ o, t = .verifyDataObject o → o ∈ s.received)
    (hown : ∀ o, t = .signDataObject o ∨ t = .generateCapability o ∨ t = .encryptDataObject o →
      s.Local o) : (s.addTask t).Sound crypto cfg found := by
  have hsplit : ∀ {t'}, t' ∈ s.tasks ++ [t] → t' ∈ s.tasks ∨ t = t' := fun ht' =>
    (List.mem_append.mp ht').imp_right fun ht' => (List.mem_singleton.mp ht').symm
  refine ⟨h.objects, h.events, fun o ho => ?_, fun o ho => ?_⟩
  · exact (hsplit ho).elim (h.verifyTasks o) (hverify o)
  · cases ho with
    | sign ho => exact (hsplit ho).elim (fun ho => h.own o (.sign ho)) fun ht => hown o (.inl ht)
    | wait ho => exact h.own o (.wait ho)
    | capability ho =>
        exact (hsplit ho).elim (fun ho => h.own o (.capability ho)) fun ht =>
          hown o (.inr (.inl ht))
    | encrypt ho =>
        exact (hsplit ho).elim (fun ho => h.own o (.encrypt ho)) fun ht =>
          hown o (.inr (.inr ht))
    | encrypted ho => exact h.own o (.encrypted ho)

theorem Sound.addEvent (h : s.Sound crypto cfg found) {e : Out}
    (he : ∀ o, e = .verified o → ∃ d, s.objects[o]? = some d ∧
      (Checked cfg d → Signed crypto cfg.thisNode s.grounds (found o) d)) :
    (s.addEvent e).Sound crypto cfg found := by
  refine ⟨h.objects, fun o ho => ?_, h.verifyTasks, fun o ho => h.own o (ho.congr rfl rfl rfl)⟩
  obtain ho | ho := List.mem_append.mp ho
  · exact h.events o ho
  · exact he o (List.mem_singleton.mp ho).symm

/-- An object of the node's own is accepted. -/
theorem Sound.acceptLocal (h : s.Sound crypto cfg found) (hlocal : s.Local o) :
    (s.addEvent (.verified o)).Sound crypto cfg found := by
  refine h.addEvent fun o' ho' => ?_
  cases ho'
  obtain ⟨d, hd, hpeer⟩ := hlocal
  refine ⟨d, hd, fun hchecked => ?_⟩
  rw [hchecked.peer] at hpeer
  cases hpeer

/-! ## Receiving -/

/-- An application's object is from no peer. -/
theorem isApplication_local (happ : d.isApplication = true) : d.fromPeer = false := by
  have hiface : d.iface = some true := by simpa [DataObject.isApplication] using happ
  simp [DataObject.fromPeer, hiface]

theorem Sound.onIncomingDataObject (h : s.Sound crypto cfg found) (hd : s.objects[o]? = some d) :
    (s.onIncomingDataObject cfg o d).Sound crypto cfg found := by
  unfold SecurityManager.onIncomingDataObject
  split_ifs with hduplicate hlenient hsign hpolicy
  · exact h
  · refine h.setSignatureStatus hd fun hchecked => ?_
    rw [hchecked.strict] at hlenient
    cases hlenient
  · exact h
  · refine h.addTask nofun fun o' ho' => ?_
    obtain rfl : o = o' := by simpa using ho'
    exact ⟨d, hd, isApplication_local (Bool.and_eq_true_iff.mp hsign).1⟩
  · exact h

/-- An object that is in question only if it is `d`: it is accepted at once if its signature is not
to be seen. -/
theorem Sound.acceptUnchecked (h : s.Sound crypto cfg found) {d' : DataObject Sig}
    (hd' : s.objects[o]? = some d') (hnot : ¬ Checked cfg d') :
    ((s.setSignatureStatus o .valid).addEvent (.verified o)).Sound crypto cfg found := by
  refine (h.setSignatureStatus hd' fun hchecked => absurd hchecked hnot).addEvent fun o' ho' => ?_
  cases ho'
  refine ⟨{ d' with signatureStatus := .valid }, ?_, fun hchecked => absurd ?_ hnot⟩
  · simp [SecurityManager.setSignatureStatus, hd']
  · exact ⟨hchecked.peer, hchecked.ordinary, hchecked.strict, hchecked.asked⟩

/-- A received object goes to the helper, or is refused, if its signature is to be seen. -/
theorem Sound.checkSignature (h : s.Sound crypto cfg found) {d' : DataObject Sig}
    (hd' : s.objects[o]? = some d') (hsame : Checked cfg d' → d' = d) (hreceived : o ∈ s.received)
    (hmissing : Checked cfg d → d.signatureStatus = .missing → d.signature = none)
    (hfresh : Checked cfg d → d.signatureStatus = .missing ∨ d.signatureStatus = .unverified) :
    (s.checkSignature cfg o d).Sound crypto cfg found := by
  have hnot : ¬ Checked cfg d → ¬ Checked cfg d' := fun hnot hchecked =>
    hnot (hsame hchecked ▸ hchecked)
  unfold SecurityManager.checkSignature
  extract_lets level
  split_ifs with hrequest hresponse hlow hhigh hverify
  · refine h.acceptUnchecked hd' (hnot fun hchecked => ?_)
    simp only [Bool.and_eq_true, Bool.not_eq_true'] at hrequest
    have hordinary := hchecked.ordinary hrequest.2
    rw [hordinary.1] at hrequest
    cases hrequest.1
  · refine h.acceptUnchecked hd' (hnot fun hchecked => ?_)
    simp only [Bool.and_eq_true, Bool.not_eq_true'] at hresponse
    have hordinary := hchecked.ordinary hresponse.2
    rw [hordinary.2] at hresponse
    cases hresponse.1
  · refine h.acceptUnchecked hd' (hnot fun hchecked => ?_)
    simp only [DataObject.isSigned, ne_eq, Bool.and_eq_true, Bool.or_eq_true, Bool.not_eq_true',
      decide_eq_false_iff_not, Decidable.not_not, decide_eq_true_eq] at hlow
    have hlevel := hchecked.asked (hmissing hchecked hlow.1.1)
    obtain hnd | hle := hlow.2
    · exact hchecked.not_lenient hnd
    · have hmedium : SecurityLevel.medium.toNat < SecurityLevel.high.toNat := by decide
      omega
  · exact h.addEvent nofun
  · refine h.addTask (fun o' ho' => ?_) (by simp)
    cases ho'
    exact hreceived
  · refine h.addEvent fun o' ho' => ?_
    cases ho'
    refine ⟨d', hd', fun hchecked => absurd (hsame hchecked ▸ hchecked) fun hchecked => ?_⟩
    -- neither of the two branches before is passed over
    have hlevel := hchecked.level
    obtain hst | hst := hfresh hchecked
    · exact hhigh (by simpa [DataObject.isSigned, hst, hchecked.peer] using hlevel)
    · exact hverify (by simpa [DataObject.signatureIsUnverified, hst] using hlevel)

theorem Sound.receive (h : s.Sound crypto cfg found) (o : Nat) :
    { s with received := s.received ++ [o] }.Sound crypto cfg found :=
  ⟨fun o' d hd hchecked => (h.objects o' d hd hchecked).mono (Grounds.Le.refl _)
    (List.mem_append_left _), h.events, fun o' ho' => List.mem_append_left _ (h.verifyTasks o' ho'),
    fun o' ho' => h.own o' (ho'.congr rfl rfl rfl)⟩

/-- What is copied to be encrypted is the node's own. -/
theorem Sound.copyToEncrypt (h : s.Sound crypto cfg found) (hlocal : s.Local o) :
    (s.copyToEncrypt o).Sound crypto cfg found := by
  obtain ⟨d, hd, hpeer⟩ := hlocal
  have hcopy : d.copy.fromPeer = false := hpeer
  have h₁ : { s with objects := s.objects ++ [d.copy] }.Sound crypto cfg found := by
    refine h.append fun hchecked => ?_
    rw [hchecked.peer] at hcopy
    cases hcopy
  have h₂ : ({ s with objects := s.objects ++ [d.copy] }.addTask
      (.generateCapability s.objects.length)).Sound crypto cfg found := by
    refine h₁.addTask nofun fun o' ho' => ?_
    obtain rfl : s.objects.length = o' := by simpa using ho'
    exact ⟨d.copy, List.getElem?_concat_length, hcopy⟩
  simp only [SecurityManager.copyToEncrypt, hd]
  exact ⟨h₂.objects, h₂.events, h₂.verifyTasks, fun o' ho' => h₂.own o' (ho'.congr rfl rfl rfl)⟩

theorem Sound.onReceivedDataObject (h : s.Sound crypto cfg found) (hd : s.objects[o]? = some d)
    (hnew : o ∉ s.received) :
    ({ s with received := s.received ++ [o] }.onReceivedDataObject cfg o d).Sound crypto cfg
      found := by
  have hreceive := h.receive o
  unfold SecurityManager.onReceivedDataObject
  extract_lets s₁ encrypt
  split
  · exact hreceive
  · -- the publisher is set only in an object whose signature nobody wants to see
    have h₁ : s₁.Sound crypto cfg found ∧ ∃ d', s₁.objects[o]? = some d' ∧
        d'.fromPeer = d.fromPeer ∧ (Checked cfg d' → d' = d) := by
      unfold s₁ setPublisher
      split
      · rename_i happ
        have hlocal := isApplication_local happ
        refine ⟨hreceive.modifyLocal hd hlocal rfl, { d with signee := cfg.thisNode }, ?_, rfl, ?_⟩
        · simp [hd]
        · intro hchecked
          have hpeer : d.fromPeer = true := hchecked.peer
          rw [hlocal] at hpeer
          cases hpeer
      · exact ⟨hreceive, d, hd, rfl, fun _ => rfl⟩
    obtain ⟨hsound, d', hd', hpeer, hsame⟩ := h₁
    split
    · split
      · rename_i happ
        exact hsound.copyToEncrypt ⟨d', hd', hpeer.trans (isApplication_local happ)⟩
      · exact hsound
    · have hin : o ∈ s₁.received := by
        unfold s₁ setPublisher
        split
        · exact List.mem_append_right _ List.mem_cons_self
        · exact List.mem_append_right _ List.mem_cons_self
      exact hsound.checkSignature hd' hsame hin
        (fun hchecked => (h.objects o d hd hchecked).missing)
        (fun hchecked => (h.objects o d hd hchecked).fresh hnew)

/-! ## The helper and its results -/

theorem Sound.verifyWith (h : s.Sound crypto cfg found) (hd : s.objects[o]? = some d)
    (hin : o ∈ s.received) {c : Certificate Key} (hfound : found o d.signee c old)
    (hunder : s.grounds.Under d.signee c.x)
    (hverified : c.verified = true → Vouched crypto cfg.thisNode s.grounds c.x)
    (hknown : c.verified = false → d.nodeDescription = true ∧ Known old c.x) :
    (s.verifyWith crypto o d c.x).Sound crypto cfg found := by
  unfold SecurityManager.verifyWith
  split
  · rename_i sig hsig
    refine h.setSignatureStatus hd fun hchecked => ⟨fun hst => ?_, fun hst => ?_, fun hnot => ?_⟩
    · dsimp only at hst
      split at hst <;> cases hst
    · dsimp only at hst
      split at hst
      · rename_i hrsa
        exact ⟨sig, c, old, hsig, hfound, hunder, hrsa, hverified, hknown⟩
      · cases hst
    · exact absurd hin hnot
  · exact h

theorem Sound.verifyDataObject [DecidableEq Key] (h : s.Sound crypto cfg found)
    (htrusted : s.Trusted crypto cfg.thisNode) (hin : o ∈ s.received)
    (hfound : ∀ n c, s.Stored n c → found o n c old) :
    (s.verifyDataObject crypto o old).Sound crypto cfg found := by
  unfold SecurityManager.verifyDataObject
  split
  · rename_i d hd
    split
    · rename_i c hc
      obtain ⟨r, hr, hget⟩ := Option.bind_eq_some_iff.mp hc
      have hstored := hfound d.signee c ⟨r, hr, hget⟩
      have hunder := (htrusted.certStore.retrieve hr).of_getElem hget
      have hvouched := htrusted.verified c (List.mem_of_getElem? hget)
      split_ifs with hverified hnd
      · refine h.verifyWith hd hin hstored hunder hvouched fun hnot => ?_
        rw [hverified] at hnot
        cases hnot
      · -- without verified certificate, what the node had so far decides
        split
        · split_ifs with hmem
          · refine h.verifyWith hd hin hstored hunder hvouched fun _ => ⟨hnd, fun xs hxs _ => ?_⟩
            exact Option.some.inj hxs ▸ hmem
          · exact h
        · exact h.verifyWith hd hin hstored hunder hvouched fun _ =>
            ⟨hnd, fun xs hxs hne => absurd (Option.some.inj hxs).symm hne⟩
        · exact h.verifyWith hd hin hstored hunder hvouched fun _ => ⟨hnd, nofun⟩
      · exact h
    · exact h
  · exact h

theorem Sound.signDataObject (h : s.Sound crypto cfg found) (hd : s.objects[o]? = some d)
    (hlocal : d.fromPeer = false) : (s.signDataObject crypto cfg o).Sound crypto cfg found := by
  unfold SecurityManager.signDataObject
  split
  · split
    · exact h.modifyLocal hd hlocal rfl
    · exact h
  · exact h

theorem Sound.generateCapability (h : s.Sound crypto cfg found) (hlocal : s.Local o)
    (capability : Capability) : (s.generateCapability o capability).Sound crypto cfg found := by
  cases capability with
  | failed => exact h
  | keysMissing =>
      refine ⟨h.objects, h.events, h.verifyTasks, fun o' ho' => ?_⟩
      cases ho' with
      | sign ho' => exact h.own o' (.sign ho')
      | wait ho' =>
          obtain ho' | ho' := List.mem_append.mp ho'
          · exact h.own o' (.wait ho')
          · exact List.mem_singleton.mp ho' ▸ hlocal
      | capability ho' => exact h.own o' (.capability ho')
      | encrypt ho' => exact h.own o' (.encrypt ho')
      | encrypted ho' => exact h.own o' (.encrypted ho')
  | generated =>
      refine h.addTask nofun fun o' ho' => ?_
      obtain rfl : o = o' := by simpa using ho'
      exact hlocal

theorem Sound.encryptDataObject (h : s.Sound crypto cfg found) (hlocal : s.Local o)
    (encryptedId : Option (List UInt8)) :
    (s.encryptDataObject crypto cfg o encryptedId).Sound crypto cfg found := by
  obtain ⟨d, hd, hpeer⟩ := hlocal
  cases encryptedId with
  | none => simpa only [SecurityManager.encryptDataObject, hd] using h
  | some id =>
      simp only [SecurityManager.encryptDataObject, hd]
      generalize hs₁ : ({ s with objects := _ } : SecurityManager Key PrivKey Sig) = s₁
      have h₁ : s₁.Sound crypto cfg found := hs₁ ▸ h.modifyLocal hd hpeer rfl
      have hd₁ : s₁.objects[o]? = some { d with
          id := id, capability := true, abeStatus := .decryptionDone } := by simp [← hs₁, hd]
      split_ifs
      · exact h₁
      · exact Sound.signDataObject h₁ hd₁ hpeer
      · exact h₁

theorem Sound.updateWaitingQueues (h : s.Sound crypto cfg found) (pass : Passing) :
    (s.updateWaitingQueues pass).Sound crypto cfg found := by
  have hsplit : ∀ {t}, t ∈ s.tasks ++ (pass.waiting s.waitingForPubKey).map .generateCapability →
      t ∈ s.tasks ∨ ∃ o ∈ s.waitingForPubKey, t = .generateCapability o := by
    intro t ht
    refine (List.mem_append.mp ht).imp_right fun ht => ?_
    obtain ⟨o, ho, rfl⟩ := List.mem_map.mp ht
    exact ⟨o, (pass.waiting_perm _).mem_iff.mp ho, rfl⟩
  refine ⟨h.objects, h.events, fun o ho => ?_, fun o ho => ?_⟩
  · obtain ho | ⟨_, -, heq⟩ := hsplit ho
    · exact h.verifyTasks o ho
    · cases heq
  · cases ho with
    | sign ho =>
        obtain ho | ⟨_, -, heq⟩ := hsplit ho
        · exact h.own o (.sign ho)
        · cases heq
    | wait ho => cases ho
    | capability ho =>
        obtain ho | ⟨_, ho, heq⟩ := hsplit ho
        · exact h.own o (.capability ho)
        · cases heq
          exact h.own o (.wait ho)
    | encrypt ho =>
        obtain ho | ⟨_, -, heq⟩ := hsplit ho
        · exact h.own o (.encrypt ho)
        · cases heq
    | encrypted ho => exact h.own o (.encrypted ho)

theorem Sound.pop (h : s.Sound crypto cfg found) (htasks : s.tasks = t :: rest) :
    { s with tasks := rest }.Sound crypto cfg found := by
  have hmem : ∀ t' ∈ rest, t' ∈ s.tasks := fun t' ht' => htasks ▸ List.mem_cons_of_mem t ht'
  exact ⟨h.objects, h.events, fun o ho => h.verifyTasks o (hmem _ ho), fun o ho =>
    h.own o (ho.of_subset (fun t' ht' _ => hmem t' ht') (fun _ => id) fun _ ht' _ => ht')⟩

/-- A task is done, and if it encrypts, then an object of the node's own. -/
theorem Sound.done (h : s.Sound crypto cfg found) (hown : ∀ o, t = .encryptDataObject o → s.Local o) :
    { s with completed := s.completed ++ [t] }.Sound crypto cfg found := by
  refine ⟨h.objects, h.events, h.verifyTasks, fun o ho => ?_⟩
  cases ho with
  | sign ho => exact h.own o (.sign ho)
  | wait ho => exact h.own o (.wait ho)
  | capability ho => exact h.own o (.capability ho)
  | encrypt ho => exact h.own o (.encrypt ho)
  | encrypted ho =>
      obtain ho | ho := List.mem_append.mp ho
      · exact h.own o (.encrypted ho)
      · exact hown o (List.mem_singleton.mp ho).symm

/-- An object of the node's own stays that. -/
theorem local_signDataObject (hlocal : s.Local o) : (s.signDataObject crypto cfg o).Local o := by
  obtain ⟨d, hd, hpeer⟩ := hlocal
  unfold SecurityManager.signDataObject
  split
  · split
    · refine ⟨_, by rw [List.getElem?_modify, hd]; rfl, ?_⟩
      simp only [if_true]
      exact hpeer
    · exact ⟨d, hd, hpeer⟩
  · exact ⟨d, hd, hpeer⟩

theorem local_encryptDataObject (hlocal : s.Local o) (encryptedId : Option (List UInt8)) :
    (s.encryptDataObject crypto cfg o encryptedId).Local o := by
  obtain ⟨d, hd, hpeer⟩ := hlocal
  cases encryptedId with
  | none => simpa only [SecurityManager.encryptDataObject, hd] using ⟨d, hd, hpeer⟩
  | some id =>
      simp only [SecurityManager.encryptDataObject, hd]
      generalize hs₁ : ({ s with objects := _ } : SecurityManager Key PrivKey Sig) = s₁
      have hlocal₁ : s₁.Local o := ⟨{ d with
        id := id, capability := true, abeStatus := .decryptionDone }, by simp [← hs₁, hd], hpeer⟩
      split_ifs
      · exact hlocal₁
      · exact local_signDataObject hlocal₁
      · exact hlocal₁

theorem Sound.doTask [DecidableEq Key] (h : s.Sound crypto cfg found)
    (htrusted : s.Trusted crypto cfg.thisNode) (htasks : s.tasks = t :: rest)
    {answers : Answers Key PrivKey} (hfound : ∀ o, t = .verifyDataObject o →
      ∀ n c, s.Stored n c → found o n c answers.oldCertificates) :
    ({ s with tasks := rest }.doTask crypto cfg answers t).Sound crypto cfg found := by
  have hpop := h.pop htasks
  have hmem : t ∈ s.tasks := htasks ▸ List.mem_cons_self
  cases t with
  | generateCertificate _ => exact hpop.done nofun
  | verifyCertificate r =>
      exact (hpop.quiet (quiet_verifyCertificate _ answers.pass r)).done nofun
  | verifyDataObject o =>
      have htrusted' : { s with tasks := rest }.Trusted crypto cfg.thisNode := { htrusted with
        tasks := fun r hr => htrusted.tasks r (htasks ▸ List.mem_cons_of_mem _ hr) }
      exact (hpop.verifyDataObject htrusted' (h.verifyTasks o hmem) (hfound o rfl)).done nofun
  | signDataObject o =>
      obtain ⟨d, hd, hlocal⟩ := h.own o (.sign hmem)
      exact (Sound.signDataObject hpop hd hlocal).done nofun
  | generateCapability o =>
      exact (hpop.generateCapability (h.own o (.capability hmem)) answers.capability).done nofun
  | encryptDataObject o =>
      have hlocal : { s with tasks := rest }.Local o := h.own o (.encrypt hmem)
      refine (hpop.encryptDataObject hlocal answers.encryptedId).done fun o' ho' => ?_
      cases ho'
      exact local_encryptDataObject hlocal answers.encryptedId
  | verifyAuthorityCertificate r =>
      exact (hpop.quiet (quiet_verifyAuthorityCertificate _ answers.pass r)).done nofun

/-- A result is taken. -/
theorem Sound.take (h : s.Sound crypto cfg found) (i : Nat) :
    { s with completed := s.completed.eraseIdx i }.Sound crypto cfg found :=
  ⟨h.objects, h.events, h.verifyTasks, fun o ho => h.own o (ho.of_subset (fun _ ht _ => ht)
    (fun _ => id) fun _ ht _ => List.mem_of_mem_eraseIdx ht)⟩

theorem Sound.onSecurityTaskComplete (h : s.Sound crypto cfg found) {pass : Passing}
    (hown : ∀ o, t = .encryptDataObject o → s.Local o)
    (hs : s.onSecurityTaskComplete crypto cfg pass t = some s') : s'.Sound crypto cfg found := by
  unfold SecurityManager.onSecurityTaskComplete at hs
  split at hs
  · exact h.quiet (quiet_certificateGenerated s hs)
  · cases hs
  · rename_i o
    cases hs
    split
    · rename_i hvalid
      -- the event is about the object that was found to be valid
      refine h.addEvent fun o' ho' => ?_
      cases ho'
      cases hd : s.objects[o]? with
      | none =>
          rw [hd] at hvalid
          cases hvalid
      | some d =>
          rw [hd, Option.any_some, DataObject.hasValidSignature, decide_eq_true_eq] at hvalid
          exact ⟨d, rfl, fun hchecked => (h.objects o d hd hchecked).valid hvalid⟩
    · exact h.addEvent nofun
  · cases hs
    split
    · exact h.addEvent nofun
    · exact h
  · rename_i o
    cases hs
    split
    · exact h.acceptLocal (hown o rfl)
    · exact h
  · cases hs
    exact h

/-! ## Runs -/

/-- Every step keeps the invariant. -/
theorem Sound.step [DecidableEq Key] (h : s.Sound crypto cfg found)
    (htrusted : s.Trusted crypto cfg.thisNode) {op : Step Key PrivKey Sig}
    (hfound : ∀ answers o, op = .doTask answers → s.tasks.head? = some (.verifyDataObject o) →
      ∀ n c, s.Stored n c → found o n c answers.oldCertificates)
    {s' : SecurityManager Key PrivKey Sig} (hs : s.step crypto cfg op = some s') :
    s'.Sound crypto cfg found := by
  cases op with
  | configureCertificate mine x =>
      exact Option.some.inj hs ▸ h.quiet (s.quiet_configureCertificate mine x)
  | configureKeyPair priv pub =>
      exact Option.some.inj hs ▸ h.quiet (s.quiet_configureKeyPair priv pub)
  | restoreCertificate kind x =>
      exact Option.some.inj hs ▸ h.quiet (s.quiet_restoreCertificate kind x)
  | restoreKeys priv pub => exact Option.some.inj hs ▸ h.quiet (s.quiet_setKeys priv pub)
  | postConfiguration pass => exact h.quiet (s.quiet_postConfiguration hs)
  | arrive d => exact Option.some.inj hs ▸ h.arrive d
  | embedded x => exact Option.some.inj hs ▸ h.quiet (s.quiet_embedded x)
  | incoming o =>
      simp only [SecurityManager.step] at hs
      split at hs
      · rename_i d hd
        split at hs
        · cases hs
        · cases hs
          -- handing it in only puts the object on a list
          refine Sound.onIncomingDataObject ?_ hd
          exact ⟨h.objects, h.events, h.verifyTasks, fun o ho => h.own o (ho.congr rfl rfl rfl)⟩
      · cases hs
  | received o =>
      simp only [SecurityManager.step] at hs
      split at hs
      · rename_i d hd
        split at hs
        · cases hs
        · rename_i hnew
          cases hs
          exact h.onReceivedDataObject hd (not_or.mp hnew).1
      · cases hs
  | doTask answers =>
      simp only [SecurityManager.step] at hs
      split at hs
      · rename_i t rest htasks
        cases hs
        refine h.doTask htrusted htasks fun o ht => hfound answers o rfl ?_
        rw [htasks, ht, List.head?_cons]
      · cases hs
  -- the helper's verdict is what the finished task carries
  | complete i pass =>
      simp only [SecurityManager.step] at hs
      split at hs
      · rename_i t ht
        refine (h.take i).onSecurityTaskComplete (fun o ho => ?_) hs
        exact h.own o (.encrypted (ho ▸ List.mem_of_getElem? ht))
      · cases hs
  | updateWaitingQueues pass => exact Option.some.inj hs ▸ h.updateWaitingQueues pass
  | signCertificate subject pubKey =>
      exact Option.some.inj hs ▸ h.quiet (s.quiet_signCertificate subject pubKey)
  | certificateResponse signee authorityID subject authID cert issuerCert =>
      exact Option.some.inj hs ▸ h.quiet
        (s.quiet_handleCertificateResponse signee authorityID subject authID cert issuerCert)

end SecurityManager

end Encoders.Security
