import Mathlib.Tactic.SplitIfs
import Encoders.Security.SecurityManager

/-!
# What a verified certificate rests on

Whatever peers send, in whatever order the handlers and the helper come to run: a certificate that
is marked as verified can be traced to what the node was given, the certificates of authorities, its
own keys, and the keys it was asked to certify. `Vouched` says how. Each rule is one place in the
code where a certificate is verified, and says what is known of the key there.
-/

namespace Encoders.Security

open Encoders.Lib

variable {Key PrivKey Sig : Type}

/-! ## Vouching -/

/-- The certificate is one that may be stored for this name. -/
def Grounds.Under (g : Grounds Key) (n : String) (x : X509 Key) : Prop :=
  x.subject = n ∨ x ∈ g.restored ∧ x.issuer = n

/-- How a certificate comes to be verified at the node `me`, of those that there have been. -/
inductive Vouched (crypto : Crypto Key PrivKey Sig) (me : String) (g : Grounds Key) :
    X509 Key → Prop
  /-- An authority's, by its own key. -/
  | authority {x} : x ∈ g.authorities → crypto.x509Verify x x.pubKey = true →
      Vouched crypto me g x
  /-- One that this node has issued, by its key. -/
  | own {x k} : x ∈ g.met → k ∈ g.ownKeys → x.issuer = me → crypto.x509Verify x k = true →
      Vouched crypto me g x
  /-- That of a node which has asked for the key to be certified. -/
  | requested {x n k} : x ∈ g.met → (n, k) ∈ g.requests → g.Under n x →
      crypto.x509Verify x k = true → Vouched crypto me g x
  /-- One that an authority has issued. -/
  | issued {x a} : x ∈ g.met → a ∈ g.authorities → Vouched crypto me g a → a.issuer = x.issuer →
      crypto.x509Verify x a.pubKey = true → Vouched crypto me g x
  /-- A node's own one, if another one for the same key is verified. -/
  | attested {x a} : x ∈ g.met → Vouched crypto me g a → a.subject = x.subject →
      a.pubKey = x.pubKey → crypto.x509Verify x a.pubKey = true → Vouched crypto me g x
  /-- The one that is stored for the subject of a verified one. -/
  | companion {x a} : x ∈ g.met → Vouched crypto me g a → g.Under a.subject x →
      crypto.x509Verify x a.pubKey = true → Vouched crypto me g x

/-- More is given. -/
structure Grounds.Le (g g' : Grounds Key) : Prop where
  met : ∀ x ∈ g.met, x ∈ g'.met
  authorities : ∀ x ∈ g.authorities, x ∈ g'.authorities
  restored : ∀ x ∈ g.restored, x ∈ g'.restored
  ownKeys : ∀ k ∈ g.ownKeys, k ∈ g'.ownKeys
  requests : ∀ p ∈ g.requests, p ∈ g'.requests

theorem Grounds.Le.refl (g : Grounds Key) : g.Le g :=
  ⟨fun _ => id, fun _ => id, fun _ => id, fun _ => id, fun _ => id⟩

theorem Grounds.Under.mono {g g' : Grounds Key} (hle : g.Le g') {n : String} {x : X509 Key}
    (h : g.Under n x) : g'.Under n x :=
  h.imp_right fun h => ⟨hle.restored x h.1, h.2⟩

theorem Vouched.mono {crypto : Crypto Key PrivKey Sig} {me : String} {g g' : Grounds Key}
    (hle : g.Le g') {x : X509 Key} (h : Vouched crypto me g x) : Vouched crypto me g' x := by
  induction h with
  | authority hx hkey => exact .authority (hle.authorities _ hx) hkey
  | own hx hk hissuer hkey => exact .own (hle.met _ hx) (hle.ownKeys _ hk) hissuer hkey
  | requested hx hreq hunder hkey =>
      exact .requested (hle.met _ hx) (hle.requests _ hreq) (hunder.mono hle) hkey
  | issued hx ha _ hissuer hkey ih =>
      exact .issued (hle.met _ hx) (hle.authorities _ ha) ih hissuer hkey
  | attested hx _ hsubject hpub hkey ih => exact .attested (hle.met _ hx) ih hsubject hpub hkey
  | companion hx _ hunder hkey ih =>
      exact .companion (hle.met _ hx) ih (hunder.mono hle) hkey

namespace SecurityManager

variable {s' : SecurityManager Key PrivKey Sig} {P : X509 Key → Prop} {cert : Nat}

/-! ## References to certificates -/

/-- The reference is to a certificate of this kind. -/
def Refers (s : SecurityManager Key PrivKey Sig) (P : X509 Key → Prop) (r : Nat) : Prop :=
  ∃ c, s.certs[r]? = some c ∧ P c.x

/-- The certificates of `s` are still there, and what they say is the same. -/
def Keeps (s s' : SecurityManager Key PrivKey Sig) : Prop :=
  ∀ (r : Nat) (c : Certificate Key), s.certs[r]? = some c →
    ∃ c', s'.certs[r]? = some c' ∧ c'.x = c.x

theorem Keeps.refl (s : SecurityManager Key PrivKey Sig) : s.Keeps s :=
  fun _ c hc => ⟨c, hc, rfl⟩

theorem Refers.keeps {s : SecurityManager Key PrivKey Sig} (hkeeps : s.Keeps s')
    {P' : X509 Key → Prop} (hP : ∀ x, P x → P' x) {r : Nat} (h : s.Refers P r) :
    s'.Refers P' r := by
  obtain ⟨c, hc, hx⟩ := h
  obtain ⟨c', hc', heq⟩ := hkeeps r c hc
  exact ⟨c', hc', hP _ (heq ▸ hx)⟩

theorem Refers.imp {P' : X509 Key → Prop} {s : SecurityManager Key PrivKey Sig} {r : Nat}
    (h : s.Refers P r) (hP : ∀ x, P x → P' x) : s.Refers P' r :=
  h.keeps (Keeps.refl s) hP

theorem Refers.of_getElem {s : SecurityManager Key PrivKey Sig} {r : Nat} (h : s.Refers P r)
    {c : Certificate Key} (hc : s.certs[r]? = some c) : P c.x := by
  obtain ⟨c', hc', hx⟩ := h
  rw [hc] at hc'
  exact Option.some.inj hc' ▸ hx

theorem keeps_newCertificate (s : SecurityManager Key PrivKey Sig) (x : X509 Key) :
    s.Keeps (s.newCertificate x) := by
  intro r c hc
  refine ⟨c, ?_, rfl⟩
  rw [newCertificate, List.getElem?_append_left (List.getElem?_eq_some_iff.mp hc).1]
  exact hc

theorem keeps_verifySignature (crypto : Crypto Key PrivKey Sig)
    (s : SecurityManager Key PrivKey Sig) (r : Nat) (k : Key) :
    s.Keeps (s.verifySignature crypto r k) := by
  intro r' c hc
  refine ⟨_, by rw [verifySignature, List.getElem?_modify, hc]; rfl, ?_⟩
  dsimp only
  split
  · split <;> rfl
  · rfl

/-- A new certificate has the next number. -/
theorem newCertificate_next (s : SecurityManager Key PrivKey Sig) (x : X509 Key) :
    (s.newCertificate x).certs[s.next]? = some ⟨x, false⟩ := by
  rw [newCertificate, next, List.getElem?_concat_length]

theorem refers_newCertificate (s : SecurityManager Key PrivKey Sig) {x : X509 Key} (hx : P x) :
    (s.newCertificate x).Refers P s.next :=
  ⟨_, s.newCertificate_next x, hx⟩

/-! ## Stores -/

/-- Every entry refers to a certificate that fits its name. -/
def Stores (s : SecurityManager Key PrivKey Sig) (P : String → X509 Key → Prop)
    (store : CertificateStore) : Prop :=
  ∀ p ∈ store, s.Refers (P p.1) p.2

theorem Stores.keeps {s : SecurityManager Key PrivKey Sig} (hkeeps : s.Keeps s')
    {P P' : String → X509 Key → Prop} (hP : ∀ n x, P n x → P' n x) {store : CertificateStore}
    (h : s.Stores P store) : s'.Stores P' store :=
  fun p hp => (h p hp).keeps hkeeps (hP p.1)

theorem Stores.store {s : SecurityManager Key PrivKey Sig} {P : String → X509 Key → Prop}
    {store : CertificateStore} (h : s.Stores P store) {key : String} (hcert : s.Refers (P key) cert)
    (replace : Bool) : s.Stores P (storeCertificate key cert store replace) := by
  intro p hp
  unfold storeCertificate at hp
  split at hp
  · split at hp
    · obtain rfl | hp := List.mem_cons.mp hp
      · exact hcert
      · exact h p (List.mem_filter.mp hp).1
    · exact h p hp
  · obtain rfl | hp := List.mem_cons.mp hp
    · exact hcert
    · exact h p hp

theorem Stores.retrieve {s : SecurityManager Key PrivKey Sig} {P : String → X509 Key → Prop}
    {store : CertificateStore} (h : s.Stores P store) {key : String} {r : Nat}
    (hr : retrieveCertificate key store = some r) : s.Refers (P key) r := by
  rw [retrieveCertificate, List.lookup_eq_some_iff] at hr
  obtain ⟨l₁, l₂, heq, -⟩ := hr
  exact h (key, r) (heq ▸ List.mem_append_right _ List.mem_cons_self)

/-! ## The invariant -/

/-- Verified certificates are vouched for, and the stores, the keys and the tasks have what they
are meant to have. -/
structure Trusted (crypto : Crypto Key PrivKey Sig) (me : String)
    (s : SecurityManager Key PrivKey Sig) : Prop where
  met : ∀ c ∈ s.certs, c.x ∈ s.grounds.met
  verified : ∀ c ∈ s.certs, c.verified = true → Vouched crypto me s.grounds c.x
  certStore : s.Stores s.grounds.Under s.certStore
  caCerts : s.Stores (fun n x => x.issuer = n ∧ x ∈ s.grounds.authorities) s.caCerts
  myCert : ∀ r, s.myCert = some r → s.Refers (fun x => x.subject = me ∧ x.issuer = me) r
  pubKey : ∀ k, s.pubKey = some k → k ∈ s.grounds.ownKeys
  tasks : ∀ r, .verifyAuthorityCertificate r ∈ s.tasks → s.Refers (· ∈ s.grounds.authorities) r

/-- Nothing changes that trust is about; there may be more grounds for it, and tasks of other
kinds. -/
structure Frame (s s' : SecurityManager Key PrivKey Sig) : Prop where
  certs : s'.certs = s.certs
  certStore : s'.certStore = s.certStore
  caCerts : s'.caCerts = s.caCerts
  myCert : s'.myCert = s.myCert
  pubKey : s'.pubKey = s.pubKey
  grounds : s.grounds.Le s'.grounds
  tasks : ∀ r, .verifyAuthorityCertificate r ∈ s'.tasks → .verifyAuthorityCertificate r ∈ s.tasks

variable {crypto : Crypto Key PrivKey Sig} {me : String} {s : SecurityManager Key PrivKey Sig}

theorem Frame.trusted (hframe : s.Frame s') (h : s.Trusted crypto me) : s'.Trusted crypto me := by
  have hkeeps : s.Keeps s' := fun r c hc => ⟨c, hframe.certs ▸ hc, rfl⟩
  refine ⟨fun c hc => ?_, fun c hc hv => ?_, ?_, ?_, fun r hr => ?_, fun k hk => ?_,
    fun r hr => ?_⟩
  · rw [hframe.certs] at hc
    exact hframe.grounds.met _ (h.met c hc)
  · rw [hframe.certs] at hc
    exact (h.verified c hc hv).mono hframe.grounds
  · rw [hframe.certStore]
    exact h.certStore.keeps hkeeps fun n x hx => hx.mono hframe.grounds
  · rw [hframe.caCerts]
    exact h.caCerts.keeps hkeeps fun n x hx => ⟨hx.1, hframe.grounds.authorities x hx.2⟩
  · rw [hframe.myCert] at hr
    exact (h.myCert r hr).keeps hkeeps fun _ => id
  · rw [hframe.pubKey] at hk
    exact hframe.grounds.ownKeys k (h.pubKey k hk)
  · exact (h.tasks r (hframe.tasks r hr)).keeps hkeeps hframe.grounds.authorities

theorem trusted_init : (init : SecurityManager Key PrivKey Sig).Trusted crypto me :=
  ⟨nofun, nofun, nofun, nofun, nofun, nofun, nofun⟩

/-! ## What the parts of a step keep -/

/-- A certificate more, and not verified. -/
theorem le_newCertificate (s : SecurityManager Key PrivKey Sig) (x : X509 Key) :
    s.grounds.Le (s.newCertificate x).grounds :=
  { Grounds.Le.refl s.grounds with met := fun _ => List.mem_append_left _ }

theorem Trusted.newCertificate (h : s.Trusted crypto me) (x : X509 Key) :
    (s.newCertificate x).Trusted crypto me := by
  have hkeeps := s.keeps_newCertificate x
  have hle := s.le_newCertificate x
  refine ⟨fun c hc => ?_, fun c hc hv => ?_, ?_, h.caCerts.keeps hkeeps fun _ _ => id,
    fun r hr => (h.myCert r hr).keeps hkeeps fun _ => id, h.pubKey,
    fun r hr => (h.tasks r hr).keeps hkeeps fun _ => id⟩
  · obtain hc | hc := List.mem_append.mp hc
    · exact hle.met _ (h.met c hc)
    · rw [List.mem_singleton.mp hc]
      exact List.mem_append_right _ List.mem_cons_self
  · obtain hc | hc := List.mem_append.mp hc
    · exact (h.verified c hc hv).mono hle
    · rw [List.mem_singleton.mp hc] at hv
      cases hv
  · exact h.certStore.keeps hkeeps fun _ _ => Grounds.Under.mono hle

theorem Trusted.verifySignature (h : s.Trusted crypto me) {r : Nat} {k : Key}
    (hr : ∀ c, s.certs[r]? = some c → c.x ∈ s.grounds.met → crypto.x509Verify c.x k = true →
      Vouched crypto me s.grounds c.x) : (s.verifySignature crypto r k).Trusted crypto me := by
  have hkeeps := s.keeps_verifySignature crypto r k
  -- every certificate is one that was there, and verified as before or by this key
  have hcert : ∀ c ∈ (s.verifySignature crypto r k).certs, c.x ∈ s.grounds.met ∧
      (c.verified = true → Vouched crypto me s.grounds c.x) := by
    intro c hc
    obtain ⟨i, hi⟩ := List.mem_iff_getElem?.mp hc
    simp only [SecurityManager.verifySignature, List.getElem?_modify] at hi
    obtain ⟨c₀, hc₀, rfl⟩ := Option.map_eq_some_iff.mp hi
    have hmet := h.met c₀ (List.mem_of_getElem? hc₀)
    have hold := h.verified c₀ (List.mem_of_getElem? hc₀)
    by_cases hri : r = i
    · subst hri
      simp only [if_true]
      by_cases hv₀ : c₀.verified = true
      · rw [if_pos hv₀]
        exact ⟨hmet, hold⟩
      · rw [if_neg hv₀]
        exact ⟨hmet, fun hv => hr c₀ hc₀ hmet hv⟩
    · simp only [hri, if_false]
      exact ⟨hmet, hold⟩
  exact ⟨fun c hc => (hcert c hc).1, fun c hc => (hcert c hc).2,
    h.certStore.keeps hkeeps fun _ _ => id, h.caCerts.keeps hkeeps fun _ _ => id,
    fun r hr => (h.myCert r hr).keeps hkeeps fun _ => id, h.pubKey,
    fun r hr => (h.tasks r hr).keeps hkeeps fun _ => id⟩

theorem Trusted.store (h : s.Trusted crypto me) {key : String}
    (hcert : s.Refers (s.grounds.Under key) cert) (replace : Bool) :
    { s with certStore := storeCertificate key cert s.certStore replace }.Trusted crypto me :=
  { h with certStore := h.certStore.store hcert replace }

theorem frame_storeAuthority (s : SecurityManager Key PrivKey Sig) (key : String) (cert : Nat)
    (replace : Bool) :
    s.Frame { s.storeAuthority key cert replace with caCerts := s.caCerts } where
  certs := rfl
  certStore := rfl
  caCerts := rfl
  myCert := rfl
  pubKey := rfl
  grounds := { Grounds.Le.refl s.grounds with authorities := fun _ => List.mem_append_left _ }
  tasks := fun _ => id

/-- What is stored as an authority's is given as one. -/
theorem Refers.storeAuthority (hcert : s.Refers P cert) (key : String) (replace : Bool) :
    (s.storeAuthority key cert replace).Refers
      (fun x => P x ∧ x ∈ (s.storeAuthority key cert replace).grounds.authorities) cert := by
  obtain ⟨c, hc, hx⟩ := hcert
  refine ⟨c, hc, hx, List.mem_append_right _ ?_⟩
  rw [hc]
  exact List.mem_singleton_self _

theorem Trusted.storeAuthority (h : s.Trusted crypto me) {key : String}
    (hcert : s.Refers (fun x => x.issuer = key) cert) (replace : Bool) :
    (s.storeAuthority key cert replace).Trusted crypto me := by
  have hframe := (s.frame_storeAuthority key cert replace).trusted h
  exact { hframe with
    caCerts := hframe.caCerts.store (hcert.storeAuthority key replace) replace }

theorem Trusted.addTasks (h : s.Trusted crypto me) {ts : List (Task Key PrivKey)}
    (hts : ∀ r, .verifyAuthorityCertificate r ∈ ts → s.Refers (· ∈ s.grounds.authorities) r) :
    { s with tasks := s.tasks ++ ts }.Trusted crypto me :=
  { h with tasks := fun r hr => (List.mem_append.mp hr).elim (h.tasks r) (hts r) }

/-- The keys become this node's. -/
theorem Trusted.setKeys (h : s.Trusted crypto me) (priv : PrivKey) (pub : Key) :
    (s.setKeys priv pub).Trusted crypto me := by
  have hframe : s.Frame { s.setKeys priv pub with pubKey := s.pubKey } :=
    ⟨rfl, rfl, rfl, rfl, rfl,
      { Grounds.Le.refl s.grounds with ownKeys := fun _ => List.mem_append_left _ }, fun _ => id⟩
  refine { hframe.trusted h with pubKey := fun k hk => ?_ }
  rw [← Option.some.inj hk]
  exact List.mem_append_right _ List.mem_cons_self

/-- A certificate of this node becomes its own one. -/
theorem Trusted.setMyCert (h : s.Trusted crypto me)
    (hcert : s.Refers (fun x => x.subject = me ∧ x.issuer = me) cert) :
    { s with myCert := some cert }.Trusted crypto me :=
  { h with myCert := fun _ hr => Option.some.inj hr ▸ hcert }

/-! ## Configuration -/

variable {cfg : Config}

theorem Trusted.configureCertificate (h : s.Trusted crypto cfg.thisNode) (mine : Bool)
    (x : X509 Key) : (s.configureCertificate cfg mine x).Trusted crypto cfg.thisNode := by
  unfold SecurityManager.configureCertificate
  extract_lets cert s₁ s₂ s₃
  have h₁ : s₁.Trusted crypto cfg.thisNode := h.newCertificate x
  have hx : s₁.Refers (· = x) cert := s.refers_newCertificate rfl
  have h₂ : s₂.Trusted crypto cfg.thisNode ∧ s₂.Refers (· = x) cert := by
    unfold s₂
    split
    · rename_i hself
      refine ⟨h₁.setMyCert (hx.imp ?_), hx⟩
      rintro _ rfl
      exact ⟨hself.2.1.trans hself.2.2, hself.2.2⟩
    · exact ⟨h₁, hx⟩
  have h₃ : s₃.Trusted crypto cfg.thisNode := by
    refine h₂.1.store (h₂.2.imp ?_) false
    rintro _ rfl
    exact .inl rfl
  have hx₃ : s₃.Refers (· = x) cert := h₂.2
  split
  · exact { h₃ with }
  · refine h₃.storeAuthority (hx₃.imp ?_) false
    rintro _ rfl
    rfl

/-- A certificate of its own that the node makes and verifies by its key. -/
theorem Trusted.selfSigned (h : s.Trusted crypto me) {pub : Key}
    (hcert : s.Refers (fun x => x.issuer = me) cert) (hpub : pub ∈ s.grounds.ownKeys) :
    (s.verifySignature crypto cert pub).Trusted crypto me :=
  h.verifySignature fun _ hc hmet hkey => .own hmet hpub (hcert.of_getElem hc) hkey

theorem Trusted.configureKeyPair (h : s.Trusted crypto cfg.thisNode) (priv : PrivKey) (pub : Key) :
    (s.configureKeyPair crypto cfg priv pub).Trusted crypto cfg.thisNode := by
  have hkeys := h.setKeys priv pub
  unfold SecurityManager.configureKeyPair
  extract_lets s₁ x signed cert s₂ s₃
  split
  · exact hkeys
  · have hx : s₂.Refers (fun y => y.subject = cfg.thisNode ∧ y.issuer = cfg.thisNode) cert :=
      s₁.refers_newCertificate ⟨rfl, rfl⟩
    have h₂ : s₂.Trusted crypto cfg.thisNode := hkeys.newCertificate _
    have h₃ : s₃.Trusted crypto cfg.thisNode := { h₂.setMyCert hx with }
    have hx₃ : s₃.Refers (fun y => y.issuer = cfg.thisNode) cert := hx.imp fun _ hy => hy.2
    split
    · exact h₃.selfSigned hx₃ (List.mem_append_right _ List.mem_cons_self)
    · exact h₃

theorem Trusted.restoreCertificate (h : s.Trusted crypto cfg.thisNode) (kind : Entry)
    (x : X509 Key) : (s.restoreCertificate cfg kind x).Trusted crypto cfg.thisNode := by
  have h₁ := h.newCertificate x
  have hx : (s.newCertificate x).Refers (· = x) s.next := s.refers_newCertificate rfl
  unfold SecurityManager.restoreCertificate
  cases kind with
  | cert =>
      extract_lets cert s₁ g s₂
      let s₃ := { s₁ with
        grounds := { s₁.grounds with restored := s₁.grounds.restored ++ [x] } }
      have hframe : s₁.Frame s₃ := ⟨rfl, rfl, rfl, rfl, rfl,
        { Grounds.Le.refl s₁.grounds with restored := fun _ => List.mem_append_left _ },
        fun _ => id⟩
      have hx₃ : s₃.Refers (· = x) cert := hx
      have h₂ : s₂.Trusted crypto cfg.thisNode := by
        refine (hframe.trusted h₁).store (hx₃.imp ?_) true
        rintro _ rfl
        exact .inr ⟨List.mem_append_right _ List.mem_cons_self, rfl⟩
      dsimp only
      split
      · rename_i hself
        have hx₂ : s₂.Refers (· = x) cert := hx
        refine h₂.setMyCert (hx₂.imp ?_)
        rintro _ rfl
        exact ⟨hself.1.trans hself.2, hself.2⟩
      · exact h₂
  | caCert =>
      refine h₁.storeAuthority (hx.imp ?_) true
      rintro _ rfl
      rfl
  | myCert => exact { h₁ with }
  | remoteSignedCert => exact { h₁ with }

theorem Trusted.postConfiguration (h : s.Trusted crypto cfg.thisNode) {pass : Passing}
    (hs : s.postConfiguration crypto cfg pass = some s') : s'.Trusted crypto cfg.thisNode := by
  unfold SecurityManager.postConfiguration at hs
  split at hs
  · rename_i pub priv cert hpub hpriv hcert
    extract_lets s₁ s₂ at hs
    cases hs
    have hmine := h.myCert cert hcert
    have h₁ : s₁.Trusted crypto cfg.thisNode ∧ s₁.Refers (fun x => x.issuer = cfg.thisNode) cert ∧
        pub ∈ s₁.grounds.ownKeys := by
      have hsame := And.intro h (And.intro (hmine.imp fun _ hx => hx.2) (h.pubKey pub hpub))
      unfold s₁
      split
      · rename_i c hc
        split
        · refine ⟨h.storeAuthority ?_ true, hsame.2⟩
          exact ⟨c, hc, rfl⟩
        · exact hsame
      · exact hsame
    have h₂ : s₂.Trusted crypto cfg.thisNode := h₁.1.selfSigned h₁.2.1 h₁.2.2
    refine h₂.addTasks fun r hr => ?_
    obtain ⟨p, hp, heq⟩ := List.mem_map.mp hr
    cases heq
    exact (h₂.caCerts p ((pass.stores_perm _).mem_iff.mp hp)).imp fun _ hx => hx.2
  · cases hs
  · cases hs
    exact h.addTasks fun r hr => nomatch List.mem_singleton.mp hr

/-! ## Data objects come in -/

theorem Frame.refl (s : SecurityManager Key PrivKey Sig) : s.Frame s :=
  ⟨rfl, rfl, rfl, rfl, rfl, Grounds.Le.refl s.grounds, fun _ => id⟩

/-- Data objects and events are of no concern, nor are the tasks for data objects. -/
theorem frame_addTask {t : Task Key PrivKey} (ht : ∀ r, t ≠ .verifyAuthorityCertificate r) :
    s.Frame (s.addTask t) := by
  refine { Frame.refl s with tasks := fun r hr => ?_ }
  obtain hr | hr := List.mem_append.mp hr
  · exact hr
  · exact absurd (List.mem_singleton.mp hr).symm (ht r)

theorem frame_onIncomingDataObject (cfg : Config) (s : SecurityManager Key PrivKey Sig) (o : Nat)
    (d : DataObject Sig) : s.Frame (s.onIncomingDataObject cfg o d) := by
  unfold onIncomingDataObject
  split
  · exact Frame.refl s
  · split
    · exact { Frame.refl s with }
    · split
      · split
        · exact Frame.refl s
        · exact frame_addTask nofun
      · exact Frame.refl s

theorem frame_checkSignature (cfg : Config) (s : SecurityManager Key PrivKey Sig) (o : Nat)
    (d : DataObject Sig) : s.Frame (s.checkSignature cfg o d) := by
  unfold checkSignature
  dsimp only
  split_ifs
  · exact { Frame.refl s with }
  · exact { Frame.refl s with }
  · exact { Frame.refl s with }
  · exact { Frame.refl s with }
  · exact frame_addTask nofun
  · exact { Frame.refl s with }

theorem frame_copyToEncrypt (s : SecurityManager Key PrivKey Sig) (o : Nat) :
    s.Frame (s.copyToEncrypt o) := by
  unfold copyToEncrypt
  split
  · exact { frame_addTask (s := s) (t := .generateCapability s.objects.length) nofun with }
  · exact Frame.refl s

theorem Trusted.onReceivedDataObject (h : s.Trusted crypto me) (cfg : Config) (o : Nat)
    (d : DataObject Sig) : (s.onReceivedDataObject cfg o d).Trusted crypto me := by
  have hpublisher : (s.setPublisher cfg o d).Trusted crypto me := by
    unfold setPublisher
    split
    · exact { h with }
    · exact h
  unfold SecurityManager.onReceivedDataObject
  extract_lets s₁ encrypt
  split
  · exact h
  · split
    · split
      · exact (frame_copyToEncrypt _ o).trusted hpublisher
      · exact hpublisher
    · exact (frame_checkSignature cfg _ o d).trusted hpublisher

/-- The certificates that an object carries are stored as they are, and not trusted. -/
theorem Trusted.embedded [DecidableEq Key] (h : s.Trusted crypto me) (x : X509 Key) :
    (s.embedded x).Trusted crypto me := by
  have h₁ := h.newCertificate x
  have hx : (s.newCertificate x).Refers (· = x) s.next := s.refers_newCertificate rfl
  unfold SecurityManager.embedded
  extract_lets cert known s₁ key
  split
  · split
    · exact h₁
    · have h₂ := h₁.store (hx.imp fun y hy => .inl (congrArg X509.subject hy)) true
      exact (frame_addTask (t := .verifyCertificate cert) nofun).trusted h₂
  · split
    · exact h₁
    · have h₂ : { s.newCertificate x with
          remoteSignedCerts := storeCertificate key cert s.remoteSignedCerts true }.Trusted
          crypto me := { h₁ with }
      exact (frame_addTask (t := .verifyCertificate cert) nofun).trusted h₂

/-! ## The helper -/

/-- The certificate stored for this name is verified by a key that makes it vouched for. -/
theorem Trusted.verifyStored (h : s.Trusted crypto me) {n : String} {r : Nat} {k : Key}
    (hr : retrieveCertificate n s.certStore = some r)
    (hk : ∀ x ∈ s.grounds.met, s.grounds.Under n x → crypto.x509Verify x k = true →
      Vouched crypto me s.grounds x) : (s.verifySignature crypto r k).Trusted crypto me :=
  h.verifySignature fun _ hc hmet hkey =>
    hk _ hmet ((h.certStore.retrieve hr).of_getElem hc) hkey

theorem Trusted.verifyCompanion (h : s.Trusted crypto me) (cert : Nat) :
    (s.verifyCompanion crypto cert).Trusted crypto me := by
  unfold SecurityManager.verifyCompanion
  split
  · rename_i c hc
    split
    · rename_i hv
      have hvouched := h.verified c (List.mem_of_getElem? hc) hv
      split
      · rename_i r hr
        exact h.verifyStored hr fun _ hmet hunder hkey => .companion hmet hvouched hunder hkey
      · exact h
    · exact h
  · exact h

/-- What `authorityFor` finds vouches for the certificate, once it is itself verified. -/
theorem Trusted.vouched_authorityFor [DecidableEq Key] (h : s.Trusted crypto me) {x : X509 Key}
    (hx : x ∈ s.grounds.met) {pass : Passing} {r : Nat} (hr : s.authorityFor pass x = some r)
    {a : Certificate Key} (ha : s.certs[r]? = some a) (hv : a.verified = true)
    (hkey : crypto.x509Verify x a.x.pubKey = true) : Vouched crypto me s.grounds x := by
  have hvouched := h.verified a (List.mem_of_getElem? ha) hv
  unfold authorityFor at hr
  split at hr
  · rename_i r' hca
    cases hr
    have hstored := (h.caCerts.retrieve hca).of_getElem ha
    exact .issued hx hstored.2 hvouched hstored.1 hkey
  · split at hr
    · obtain ⟨p, hp, rfl⟩ := Option.map_eq_some_iff.mp hr
      have hfound := List.find?_some hp
      rw [ha] at hfound
      simp only [Option.any_some, Bool.and_eq_true, decide_eq_true_eq] at hfound
      exact .attested hx hvouched hfound.1.2 hfound.2 hkey
    · cases hr

theorem Trusted.verifyCertificate [DecidableEq Key] (h : s.Trusted crypto me) (pass : Passing)
    (cert : Nat) : (s.verifyCertificate crypto pass cert).Trusted crypto me := by
  unfold SecurityManager.verifyCertificate
  split
  · rename_i c hc
    split
    · exact h
    · split
      · rename_i r hr
        split
        · rename_i a ha
          split
          · rename_i hv
            refine Trusted.verifyCompanion (h.verifySignature fun c' hc' hmet hkey => ?_) cert
            rw [hc] at hc'
            cases hc'
            exact h.vouched_authorityFor hmet hr ha hv hkey
          · exact h
        · exact h
      · exact h
  · exact h

theorem Trusted.verifyAuthorityCertificate (h : s.Trusted crypto me) (pass : Passing)
    (hcert : s.Refers (· ∈ s.grounds.authorities) cert) :
    (s.verifyAuthorityCertificate crypto pass cert).Trusted crypto me := by
  unfold SecurityManager.verifyAuthorityCertificate
  split
  · rename_i c hc
    extract_lets s₁ s₂
    have h₁ : s₁.Trusted crypto me := by
      refine h.verifySignature fun c' hc' _ hkey => ?_
      rw [hc] at hc'
      cases hc'
      exact .authority (hcert.of_getElem hc) hkey
    split
    · refine Trusted.verifyCompanion ?_ cert
      unfold s₂
      rw [List.append_assoc]
      refine h₁.addTasks fun r hr => ?_
      obtain hr | hr := List.mem_append.mp hr
      · obtain ⟨p, -, heq⟩ := List.mem_map.mp hr
        cases heq
      · obtain ⟨p, -, heq⟩ := List.mem_map.mp hr
        cases heq
    · exact h₁
  · exact h

theorem frame_verifyWith (s : SecurityManager Key PrivKey Sig) (o : Nat) (d : DataObject Sig)
    (x : X509 Key) : s.Frame (s.verifyWith crypto o d x) := by
  unfold verifyWith
  split
  · exact { Frame.refl s with }
  · exact Frame.refl s

theorem frame_verifyDataObject [DecidableEq Key] (s : SecurityManager Key PrivKey Sig) (o : Nat)
    (old : Option (List (X509 Key))) : s.Frame (s.verifyDataObject crypto o old) := by
  unfold verifyDataObject
  split
  · split
    · split_ifs
      · exact s.frame_verifyWith o _ _
      · split
        · split_ifs
          · exact s.frame_verifyWith o _ _
          · exact Frame.refl s
        · exact s.frame_verifyWith o _ _
        · exact s.frame_verifyWith o _ _
      · exact Frame.refl s
    · exact Frame.refl s
  · exact Frame.refl s

theorem frame_signDataObject (s : SecurityManager Key PrivKey Sig) (o : Nat) :
    s.Frame (s.signDataObject crypto cfg o) := by
  unfold signDataObject
  split
  · split
    · exact { Frame.refl s with }
    · exact Frame.refl s
  · exact Frame.refl s

theorem frame_generateCapability (s : SecurityManager Key PrivKey Sig) (o : Nat)
    (capability : Capability) : s.Frame (s.generateCapability o capability) := by
  cases capability with
  | failed => exact Frame.refl s
  | keysMissing => exact { Frame.refl s with }
  | generated => exact frame_addTask nofun

theorem frame_encryptDataObject (s : SecurityManager Key PrivKey Sig) (o : Nat)
    (encryptedId : Option (List UInt8)) :
    s.Frame (s.encryptDataObject crypto cfg o encryptedId) := by
  unfold encryptDataObject
  split
  · extract_lets s₁
    have h₁ : s.Frame s₁ := { Frame.refl s with }
    split_ifs
    · exact h₁
    · have hsign : s₁.Frame (s₁.signDataObject crypto cfg o) := s₁.frame_signDataObject o
      exact { hsign with }
    · exact h₁
  · exact Frame.refl s

theorem Trusted.updateWaitingQueues (h : s.Trusted crypto me) (pass : Passing) :
    (s.updateWaitingQueues pass).Trusted crypto me := by
  have hadded : { s with tasks := s.tasks ++
      (pass.waiting s.waitingForPubKey).map Task.generateCapability }.Trusted crypto me := by
    refine h.addTasks fun r hr => ?_
    obtain ⟨o, -, heq⟩ := List.mem_map.mp hr
    cases heq
  exact { hadded with }

theorem Trusted.doTask [DecidableEq Key] (h : s.Trusted crypto cfg.thisNode)
    (answers : Answers Key PrivKey) {t : Task Key PrivKey}
    (ht : ∀ r, t = .verifyAuthorityCertificate r → s.Refers (· ∈ s.grounds.authorities) r) :
    (s.doTask crypto cfg answers t).Trusted crypto cfg.thisNode := by
  cases t with
  | generateCertificate _ => exact { h with }
  | verifyCertificate r => exact { h.verifyCertificate answers.pass r with }
  | verifyDataObject o =>
      exact { (s.frame_verifyDataObject o answers.oldCertificates).trusted h with }
  | signDataObject o => exact { (s.frame_signDataObject o).trusted h with }
  | generateCapability o =>
      exact { (s.frame_generateCapability o answers.capability).trusted h with }
  | encryptDataObject o =>
      exact { (s.frame_encryptDataObject o answers.encryptedId).trusted h with }
  | verifyAuthorityCertificate r =>
      exact { h.verifyAuthorityCertificate answers.pass (ht r rfl) with }

/-! ## Results come back -/

theorem Trusted.certificateGenerated (h : s.Trusted crypto cfg.thisNode) {pass : Passing}
    {priv : PrivKey} {pub : Key} (hs : s.certificateGenerated crypto cfg pass priv pub = some s') :
    s'.Trusted crypto cfg.thisNode := by
  unfold SecurityManager.certificateGenerated at hs
  extract_lets x cert s₁ s₂ s₃ s₄ s₅ at hs
  have hx : s₁.Refers (fun y => y.subject = cfg.thisNode ∧ y.issuer = cfg.thisNode) cert :=
    s.refers_newCertificate ⟨rfl, rfl⟩
  have h₁ : s₁.Trusted crypto cfg.thisNode := h.newCertificate _
  have h₂ : s₂.Trusted crypto cfg.thisNode ∧
      s₂.Refers (fun y => y.subject = cfg.thisNode ∧ y.issuer = cfg.thisNode) cert := by
    unfold s₂
    split
    · exact ⟨h₁.storeAuthority (hx.imp fun _ hy => hy.2) false, hx⟩
    · exact ⟨h₁, hx⟩
  have h₃ : s₃.Trusted crypto cfg.thisNode := h₂.1.store (h₂.2.imp fun _ hy => .inl hy.1) false
  have hx₅ : s₅.Refers (fun y => y.subject = cfg.thisNode ∧ y.issuer = cfg.thisNode) cert := h₂.2
  have h₅ : s₅.Trusted crypto cfg.thisNode := { (h₃.setKeys priv pub).setMyCert hx₅ with }
  refine Trusted.postConfiguration (h₅.selfSigned (hx₅.imp fun _ hy => hy.2) ?_) hs
  exact List.mem_append_right _ List.mem_cons_self

theorem Trusted.onSecurityTaskComplete (h : s.Trusted crypto cfg.thisNode) {pass : Passing}
    {t : Task Key PrivKey} (hs : s.onSecurityTaskComplete crypto cfg pass t = some s') :
    s'.Trusted crypto cfg.thisNode := by
  unfold SecurityManager.onSecurityTaskComplete at hs
  split at hs
  · exact h.certificateGenerated hs
  · cases hs
  · cases hs
    split
    · exact { h with }
    · exact { h with }
  · cases hs
    split
    · exact { h with }
    · exact h
  · cases hs
    split
    · exact { h with }
    · exact h
  · cases hs
    exact h

/-! ## Requests and responses -/

theorem Trusted.signCertificate (h : s.Trusted crypto cfg.thisNode) (subject : String)
    (pubKey : Key) : (s.signCertificate crypto cfg subject pubKey).Trusted crypto cfg.thisNode := by
  unfold SecurityManager.signCertificate
  split
  · exact h
  · split
    · exact h
    · split
      · rename_i priv pub hpriv hpub
        extract_lets x cert key
        split
        · rename_i sig hsig
          extract_lets s₀ g s₁ s₂ s₃ s₄
          have hx : s₀.Refers (fun y => y.issuer = cfg.thisNode) cert :=
            s.refers_newCertificate rfl
          have h₁ : s₁.Trusted crypto cfg.thisNode := by
            have hframe : s₀.Frame s₁ :=
              ⟨rfl, rfl, rfl, rfl, rfl,
                { Grounds.Le.refl s₀.grounds with requests := fun _ => List.mem_append_left _ },
                fun _ => id⟩
            exact hframe.trusted (h.newCertificate _)
          have h₂ : s₂.Trusted crypto cfg.thisNode := by
            -- the issuer is this node, and the key that signs is its own
            have hx₁ : s₁.Refers (fun y => y.issuer = cfg.thisNode) cert := hx
            exact h₁.selfSigned hx₁ (h.pubKey pub hpub)
          have h₃ : s₃.Trusted crypto cfg.thisNode := { h₂ with }
          have h₄ : s₄.Trusted crypto cfg.thisNode := by
            unfold s₄
            split
            · rename_i r hr
              refine h₃.verifyStored hr fun _ hmet hunder hkey => .requested hmet ?_ hunder hkey
              exact List.mem_append_right _ List.mem_cons_self
            · exact h₃
          exact { h₄ with }
        · exact h
      · exact h

theorem Trusted.handleCertificateResponse (h : s.Trusted crypto me)
    (signee authorityID subject authID : String) (cert issuerCert : Option (X509 Key)) :
    (s.handleCertificateResponse cfg signee authorityID subject authID cert issuerCert).Trusted
      crypto me := by
  unfold SecurityManager.handleCertificateResponse
  split_ifs
  · exact h
  · exact h
  · exact h
  · exact h
  · split
    · rename_i x
      split
      · exact h
      · extract_lets r s₁ s₂ r₂
        have h₂ : s₂.Trusted crypto me := { h.newCertificate x with }
        split
        · rename_i y
          split
          · exact h₂
          · rename_i hy
            have href : (s₂.newCertificate y).Refers (fun z => z.issuer = authID) r₂ :=
              s₂.refers_newCertificate (not_not.mp (not_or.mp hy).2)
            refine Trusted.addTasks ((h₂.newCertificate y).storeAuthority href true) ?_
            intro r hr
            cases List.mem_singleton.mp hr
            exact (href.storeAuthority authID true).imp fun _ hz => hz.2
        · exact h₂
    · exact h

/-! ## Steps and runs -/

/-- Every step keeps the invariant. -/
theorem Trusted.step [DecidableEq Key] (h : s.Trusted crypto cfg.thisNode)
    {op : Step Key PrivKey Sig} {s' : SecurityManager Key PrivKey Sig}
    (hs : s.step crypto cfg op = some s') : s'.Trusted crypto cfg.thisNode := by
  cases op with
  | configureCertificate mine x => exact Option.some.inj hs ▸ h.configureCertificate mine x
  | configureKeyPair priv pub => exact Option.some.inj hs ▸ h.configureKeyPair priv pub
  | restoreCertificate kind x => exact Option.some.inj hs ▸ h.restoreCertificate kind x
  | restoreKeys priv pub => exact Option.some.inj hs ▸ h.setKeys priv pub
  | postConfiguration pass => exact h.postConfiguration hs
  | arrive d =>
      cases hs
      exact { h with }
  | embedded x => exact Option.some.inj hs ▸ h.embedded x
  | incoming o =>
      simp only [SecurityManager.step] at hs
      split at hs
      · split at hs
        · cases hs
        · cases hs
          exact (frame_onIncomingDataObject cfg _ o _).trusted { h with }
      · cases hs
  | received o =>
      simp only [SecurityManager.step] at hs
      split at hs
      · split at hs
        · cases hs
        · cases hs
          refine Trusted.onReceivedDataObject ?_ cfg o _
          exact { h with }
      · cases hs
  | doTask answers =>
      simp only [SecurityManager.step] at hs
      split at hs
      · rename_i t rest htasks
        cases hs
        -- the task at the head is done, and its request stood in the queue
        refine Trusted.doTask (s := { s with tasks := rest }) ?_ answers fun r hr => ?_
        · exact { h with tasks := fun r hr => h.tasks r (htasks ▸ List.mem_cons_of_mem t hr) }
        · exact h.tasks r (htasks ▸ hr ▸ List.mem_cons_self)
      · cases hs
  | complete i pass =>
      simp only [SecurityManager.step] at hs
      split at hs
      · refine Trusted.onSecurityTaskComplete ?_ hs
        exact { h with }
      · cases hs
  | updateWaitingQueues pass => exact Option.some.inj hs ▸ h.updateWaitingQueues pass
  | signCertificate subject pubKey =>
      exact Option.some.inj hs ▸ h.signCertificate subject pubKey
  | certificateResponse signee authorityID subject authID cert issuerCert =>
      exact Option.some.inj hs ▸
        h.handleCertificateResponse signee authorityID subject authID cert issuerCert

/-- What every run keeps. -/
theorem trusted_run [DecidableEq Key] {ops : List (Step Key PrivKey Sig)}
    (hrun : run (step crypto cfg) init ops = some s) : s.Trusted crypto cfg.thisNode :=
  run_keeps ops init s (fun _ _ _ _ h hs => h.step hs) trusted_init hrun

end SecurityManager

/-! ## Whose the keys are -/

/--
Those whose word is taken are honest, as far as there have been certificates: authorities own their
keys and have issued no certificate for another's key as if it were the subject's; nor has this
node; a node asks for its own keys to be certified, and has signed none but its own as its own; and
what the repository has under a node's name that node has issued as an authority does.
-/
structure Honest (crypto : Crypto Key PrivKey Sig) (me : String) (g : Grounds Key)
    (Owns : String → Key → Prop) : Prop where
  authorities : ∀ a ∈ g.authorities, Owns a.subject a.pubKey
  issued : ∀ a ∈ g.authorities, ∀ x ∈ g.met, x.issuer = a.issuer →
    crypto.x509Verify x a.pubKey = true → Owns x.subject x.pubKey
  own : ∀ k ∈ g.ownKeys, ∀ x ∈ g.met, x.issuer = me → crypto.x509Verify x k = true →
    Owns x.subject x.pubKey
  requests : ∀ p ∈ g.requests, Owns p.1 p.2
  attested : ∀ k, ∀ x ∈ g.met, Owns x.subject k → crypto.x509Verify x k = true →
    Owns x.subject x.pubKey
  restored : ∀ k, ∀ x ∈ g.restored, Owns x.issuer k → crypto.x509Verify x k = true →
    Owns x.subject x.pubKey

variable {crypto : Crypto Key PrivKey Sig} {me : String} {g : Grounds Key}
  {Owns : String → Key → Prop}

/-- A key of the node under whose name the certificate is stored verifies it. -/
theorem Honest.stored (h : Honest crypto me g Owns) {n : String} {k : Key} {x : X509 Key}
    (hx : x ∈ g.met) (hown : Owns n k) (hunder : g.Under n x)
    (hkey : crypto.x509Verify x k = true) : Owns x.subject x.pubKey := by
  obtain rfl | ⟨hx, rfl⟩ := hunder
  · exact h.attested k x hx hown hkey
  · exact h.restored k x hx hown hkey

/-- The key of a certificate that is vouched for belongs to its subject. -/
theorem Vouched.owns (h : Honest crypto me g Owns) {x : X509 Key} (hx : Vouched crypto me g x) :
    Owns x.subject x.pubKey := by
  induction hx with
  | authority hx _ => exact h.authorities _ hx
  | own hx hk hissuer hkey => exact h.own _ hk _ hx hissuer hkey
  | requested hx hreq hunder hkey => exact h.stored hx (h.requests _ hreq) hunder hkey
  | issued hx ha _ hissuer hkey _ => exact h.issued _ ha _ hx hissuer.symm hkey
  | attested hx _ hsubject _ hkey ih => exact h.attested _ _ hx (hsubject ▸ ih) hkey
  | companion hx _ hunder hkey ih => exact h.stored hx ih hunder hkey

/--
**A verified certificate's key is its subject's.** In every run, whatever certificates came in and
from whom, one that is marked as verified is vouched for by what the node was given. If those whose
word that is are honest, its key belongs to its subject.
-/
theorem keys_belong [DecidableEq Key] {cfg : Config}
    {ops : List (SecurityManager.Step Key PrivKey Sig)} {s : SecurityManager Key PrivKey Sig}
    (hrun : run (SecurityManager.step crypto cfg) SecurityManager.init ops = some s)
    {c : Certificate Key} (hc : c ∈ s.certs) (hv : c.verified = true) :
    Vouched crypto cfg.thisNode s.grounds c.x ∧
      ∀ Owns, Honest crypto cfg.thisNode s.grounds Owns → Owns c.x.subject c.x.pubKey := by
  have hvouched := (SecurityManager.trusted_run hrun).verified c hc hv
  exact ⟨hvouched, fun Owns h => hvouched.owns h⟩

/-- Signatures that are the number of the key, which is both public and private. -/
def numbered : Crypto Nat Nat Nat where
  x509Verify x k := x.rest == k
  x509Sign _ k := some k
  rsaVerify _ sig k := sig == k
  rsaSign _ k := some k

/-- At high security, for the node `n`. -/
def strict : Config where
  thisNode := "n"
  securityLevel := .high
  signNodeDescriptions := true
  encryptFilePayload := false
  isAuthority := false
  certificationACL _ := false
  rawNodeSharedSecretMap _ := false

/-- Nothing is there for the task. -/
def nothing : Answers Nat Nat where
  oldCertificates := none
  keys := none
  capability := .failed
  encryptedId := none
  pass := .asListed

/-- The node is given the certificate of the authority `a`, and then meets `b`, who carries one
issued by `a` and one of its own, and somebody who claims to be `b`. -/
def meeting : List (SecurityManager.Step Nat Nat Nat) :=
  [.configureCertificate false ⟨"a", "a", 1, 1⟩, .configureKeyPair 7 7,
    .postConfiguration .asListed, .doTask nothing, .embedded ⟨"b", "a", 5, 1⟩,
    .embedded ⟨"b", "b", 5, 5⟩, .doTask nothing, .embedded ⟨"b", "a", 6, 6⟩]

/-- Whose the keys are there. -/
def Meets (n : String) (k : Nat) : Prop := (n, k) ∈ [("a", 1), ("n", 7), ("b", 5)]

instance (n : String) (k : Nat) : Decidable (Meets n k) :=
  inferInstanceAs (Decidable (_ ∈ _))

/-- The state after a run that does not get stuck. -/
def after (ops : List (SecurityManager.Step Nat Nat Nat)) : SecurityManager Nat Nat Nat :=
  (run (SecurityManager.step numbered strict) .init ops).getD .init

/-- Nobody there has signed what is not so. -/
theorem honest_meeting : Honest numbered "n" (after meeting).grounds Meets where
  authorities := by decide
  issued := by decide
  own := by decide
  requests := nofun
  attested k := by
    intro x hx hown hkey
    obtain rfl : x.rest = k := by simpa [numbered] using hkey
    revert x
    decide
  restored _ x hx := by
    rw [show (after meeting).grounds.restored = [] from rfl] at hx
    cases hx

theorem keys_belong_meeting : Vouched numbered "n" (after meeting).grounds ⟨"b", "b", 5, 5⟩ ∧
    Meets "b" 5 ∧ ¬ Meets "b" 6 :=
  have hrun : run (SecurityManager.step numbered strict) .init meeting = some (after meeting) := rfl
  have hkey := keys_belong hrun (c := ⟨⟨"b", "b", 5, 5⟩, true⟩) (by decide) rfl
  ⟨hkey.1, hkey.2 Meets honest_meeting, by decide⟩

end Encoders.Security
