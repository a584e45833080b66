import Encoders.Data.Identity

/-!
# Sender and receiver

An object is built by adding attributes and setting its create time, with or without
a file. Its metadata go to the receiver, who makes an object of them. Attributes come
in the same order again, because the order is that of their names and values. What
does not survive is a number that was cut to its buffer: a weight of twenty digits, a
create time whose microseconds did not fit. And a create time that was taken back
stays in the metadata.
-/

namespace Encoders.Data

open Encoders.Lib DataObject

variable {a : Attribute}
variable {attrs : List Attribute} {b c : Attribute}

/-! ## The order of attributes -/

/-- `a` comes before `b`, and the two are not equal up to wildcards. -/
def Before (a b : Attribute) : Prop :=
  (a.name < b.name ∨ a.name = b.name ∧ a.value < b.value) ∧ a.eq b = false

/-- In canonical order. -/
def Ordered (attrs : List Attribute) : Prop := attrs.Pairwise Before

theorem eq_comm' (a b : Attribute) : a.eq b = b.eq a := by
  unfold Attribute.eq
  rw [Bool.eq_iff_iff]
  simp only [Bool.and_eq_true, Bool.or_eq_true, decide_eq_true_eq]
  constructor
  · intro h
    exact ⟨h.1.symm, by tauto⟩
  · intro h
    exact ⟨h.1.symm, by tauto⟩

theorem find_isSome : (find attrs a).isSome = true ↔ ∃ b ∈ attrs, a.eq b = true := by
  unfold find
  rw [List.find?_isSome]

/-- Attributes that are not equal and have one name have different values. -/
theorem value_ne_of_not_eq (h : a.eq b = false) (hname : a.name = b.name) : a.value ≠ b.value := by
  intro hvalue
  unfold Attribute.eq at h
  simp [hname, hvalue] at h

/-- `insert_sorted` walks past exactly what comes before. -/
theorem walks_past_iff (h : a.eq b = false) :
    (b.name < a.name ∨ (b.name = a.name ∧ b.lt a = true)) ↔ Before b a := by
  unfold Before Attribute.lt
  rw [eq_comm' b a]
  constructor
  · intro hor
    refine ⟨?_, h⟩
    rcases hor with hlt | ⟨hname, hlt⟩
    · exact Or.inl hlt
    · have hne := value_ne_of_not_eq h hname.symm
      simp only [hname, ne_eq, not_true, if_false, hne.symm, not_false_eq_true, if_true,
        decide_eq_true_eq] at hlt
      exact Or.inr ⟨hname, hlt⟩
  · intro hbefore
    rcases hbefore.1 with hlt | ⟨hname, hlt⟩
    · exact Or.inl hlt
    · refine Or.inr ⟨hname, ?_⟩
      simp only [hname, ne_eq, not_true, if_false, ne_of_lt hlt, not_false_eq_true, if_true,
        decide_eq_true_eq]
      exact hlt

theorem before_of_not_before (h : a.eq b = false) (hnot : ¬ Before b a) : Before a b := by
  refine ⟨?_, h⟩
  by_contra hcon
  apply hnot
  refine ⟨?_, by rw [eq_comm']; exact h⟩
  rcases lt_trichotomy a.name b.name with hlt | heq | hgt
  · exact absurd (Or.inl hlt) hcon
  · have hne := value_ne_of_not_eq h heq
    rcases lt_trichotomy a.value b.value with hlt | hval | hgt
    · exact absurd (Or.inr ⟨heq, hlt⟩) hcon
    · exact absurd hval hne
    · exact Or.inr ⟨heq.symm, hgt⟩
  · exact Or.inl hgt

theorem before_trans (hab : Before a b) (hbc : Before b c) (h : a.eq c = false) : Before a c := by
  refine ⟨?_, h⟩
  rcases hab.1 with h1 | ⟨h1, h1'⟩ <;> rcases hbc.1 with h2 | ⟨h2, h2'⟩
  · exact Or.inl (lt_trans h1 h2)
  · exact Or.inl (h2 ▸ h1)
  · exact Or.inl (h1 ▸ h2)
  · exact Or.inr ⟨h1.trans h2, lt_trans h1' h2'⟩

theorem mem_add : ∀ {attrs : List Attribute}, c ∈ add a attrs → c = a ∨ c ∈ attrs
  | [], h => Or.inl (List.mem_singleton.mp h)
  | b :: bs, h => by
      unfold add at h
      split at h
      · rcases List.mem_cons.mp h with hb | hrest
        · exact Or.inr (by rw [hb]; exact List.mem_cons_self)
        · rcases mem_add hrest with ha | hmem
          · exact Or.inl ha
          · exact Or.inr (List.mem_cons_of_mem _ hmem)
      · exact List.mem_cons.mp h

/-- Adding a new attribute keeps the order. -/
theorem ordered_add : ∀ {attrs : List Attribute}, Ordered attrs →
    (∀ b ∈ attrs, a.eq b = false) → Ordered (add a attrs)
  | [], _, _ => List.pairwise_singleton _ _
  | b :: bs, hord, hnew => by
      obtain ⟨hb, hbs⟩ := List.pairwise_cons.mp hord
      have hnewb := hnew b List.mem_cons_self
      have hnewbs : ∀ c ∈ bs, a.eq c = false := fun c hc => hnew c (List.mem_cons_of_mem _ hc)
      unfold add
      split
      · next hpast =>
          have hbefore := (walks_past_iff hnewb).mp hpast
          refine List.pairwise_cons.mpr ⟨?_, ordered_add hbs hnewbs⟩
          intro c hc
          rcases mem_add hc with rfl | hmem
          · exact hbefore
          · exact hb c hmem
      · next hstop =>
          have hbefore := before_of_not_before hnewb
            (fun h => hstop ((walks_past_iff hnewb).mpr h))
          refine List.pairwise_cons.mpr ⟨?_, hord⟩
          intro c hc
          rcases List.mem_cons.mp hc with rfl | hmem
          · exact hbefore
          · exact before_trans hbefore (hb c hmem) (hnewbs c hmem)

/-- What comes after all is added at the end. -/
theorem add_last : ∀ {attrs : List Attribute}, (∀ b ∈ attrs, Before b a) →
    add a attrs = attrs ++ [a]
  | [], _ => rfl
  | b :: bs, h => by
      have hb := h b List.mem_cons_self
      unfold add
      rw [if_pos ((walks_past_iff (by rw [eq_comm']; exact hb.2)).mpr hb),
        add_last (fun c hc => h c (List.mem_cons_of_mem _ hc))]
      rfl

theorem mem_add_iff : c ∈ add a attrs ↔ c = a ∨ c ∈ attrs := by
  induction attrs with
  | nil => exact List.mem_singleton.trans (by simp)
  | cons b bs ih =>
      unfold add
      split
      · rw [List.mem_cons, List.mem_cons, ih]
        tauto
      · rw [List.mem_cons]

/-- Lists in canonical order with the same attributes are the same. -/
theorem Ordered.eq_of_mem {l l' : List Attribute} (h : Ordered l) (h' : Ordered l')
    (hmem : ∀ a, a ∈ l ↔ a ∈ l') : l = l' := by
  have hself : ∀ a : Attribute, a.eq a = true := by
    intro a
    simp [Attribute.eq]
  have hnodup : ∀ {l : List Attribute}, Ordered l → l.Nodup := by
    intro l hl
    refine hl.imp (fun {a b} hab heq => ?_)
    rw [heq] at hab
    have hcon := hab.2
    rw [hself] at hcon
    cases hcon
  have hperm : l.Perm l' := (List.perm_ext_iff_of_nodup (hnodup h) (hnodup h')).mpr hmem
  refine hperm.eq_of_pairwise (fun a b _ _ hab hba => ?_) h h'
  rcases hab.1 with hlt | ⟨hname, hlt⟩
  · rcases hba.1 with hgt | ⟨hname', _⟩
    · exact absurd hgt (lt_asymm hlt)
    · rw [hname'] at hlt
      exact absurd hlt (lt_irrefl _)
  · rcases hba.1 with hgt | ⟨_, hgt⟩
    · rw [hname] at hgt
      exact absurd hgt (lt_irrefl _)
    · exact absurd hgt (lt_asymm hlt)

theorem find_eq_none_iff : (find attrs a).isSome = false ↔ ∀ b ∈ attrs, a.eq b = false := by
  rw [← Bool.not_eq_true, find_isSome]
  constructor
  · intro h b hb
    exact Bool.eq_false_iff.mpr (fun heq => h ⟨b, hb, heq⟩)
  · intro h hex
    obtain ⟨b, hb, heq⟩ := hex
    rw [h b hb] at heq
    cases heq

/-! ## Reading what was written -/

namespace Metadata

@[simp] theorem getParameter_setParameter (m : Metadata) (name value other : CString) :
    (m.setParameter name value).getParameter other =
      if other = name then some value else m.getParameter other := by
  cases m
  simp only [setParameter, getParameter, Function.update_apply]

@[simp] theorem getAll_setParameter (m : Metadata) (name value other : CString) :
    (m.setParameter name value).getAll other = m.getAll other := by
  cases m
  rfl

@[simp] theorem getParameter_setAll (m : Metadata) (name other : CString) (l : List Metadata) :
    (m.setAll name l).getParameter other = m.getParameter other := by
  cases m
  rfl

@[simp] theorem getAll_setAll (m : Metadata) (name other : CString) (l : List Metadata) :
    (m.setAll name l).getAll other = if other = name then l else m.getAll other := by
  cases m
  simp only [setAll, getAll, Function.update_apply]

@[simp] theorem getContent_leaf (content : CString) : (leaf content).getContent = content := rfl

@[simp] theorem getContent_setParameter (m : Metadata) (name value : CString) :
    (m.setParameter name value).getContent = m.getContent := by
  cases m
  rfl

@[simp] theorem getParameter_leaf (content name : CString) :
    (leaf content).getParameter name = none := rfl

@[simp] theorem getAll_leaf (content name : CString) : (leaf content).getAll name = [] := rfl

@[simp] theorem getParameter_putContent (m : Metadata) (name content other : CString) :
    (m.putContent name content).getParameter other = m.getParameter other := by
  unfold putContent
  split
  · exact getParameter_setAll _ _ _ _
  · exact getParameter_setAll _ _ _ _

/-- Other children than the one set stay as they are. -/
theorem getAll_putContent_ne (m : Metadata) {name content other : CString} (h : other ≠ name) :
    (m.putContent name content).getAll other = m.getAll other := by
  unfold putContent
  split
  · rw [getAll_setAll, if_neg h]
  · rw [getAll_setAll, if_neg h]

/-- The first child of the name has the content set. -/
theorem getContent_putContent (m : Metadata) (name content : CString) :
    ((m.putContent name content).getMetadata name).map getContent = some content := by
  unfold putContent getMetadata
  split
  · rw [getAll_setAll, if_pos rfl]
    rfl
  · next child children _ =>
      rw [getAll_setAll, if_pos rfl]
      cases child
      rfl

@[simp] theorem getParameter_modify (m : Metadata) (name other : CString)
    (f : Metadata → Metadata) : (m.modify name f).getParameter other = m.getParameter other := by
  unfold modify
  split
  · exact getParameter_setAll _ _ _ _
  · exact getParameter_setAll _ _ _ _

theorem getAll_modify_ne (m : Metadata) {name other : CString} (f : Metadata → Metadata)
    (h : other ≠ name) : (m.modify name f).getAll other = m.getAll other := by
  unfold modify
  split
  · rw [getAll_setAll, if_neg h]
  · rw [getAll_setAll, if_neg h]

end Metadata

variable {d : DataObject}
variable {m : Metadata} {e : DataObject}

/-- Nineteen digits fit. -/
theorem strtoul_printUlong {n : UInt64} (h : n.toNat < 10000000000000000000) :
    UInt64.ofNat (strtoul (chars (printUlong n))) = n := by
  have hn := n.toNat_lt
  have hlen : (Nat.toDigits 10 n.toNat).length ≤ 19 :=
    (Nat.length_toDigits_le_iff (by decide) (by decide)).mpr h
  have hascii : ∀ c ∈ Nat.toDigits 10 n.toNat, c.toNat < 128 := by
    intro c hc
    have := toNat_isDigit (isDigit_toDigits hc)
    omega
  unfold printUlong snprintf
  rw [List.take_of_length_le hlen, chars_ascii hascii,
    strtoul_digits (fun c hc => isDigit_toDigits hc), Nat.ofDigitChars_ten_toDigits,
    Nat.min_eq_right (by omega)]
  exact UInt64.ofNat_toNat

/-- With twenty digits the number read is another. -/
theorem strtoul_printUlong_long {n : UInt64} (h : 10000000000000000000 ≤ n.toNat) :
    UInt64.ofNat (strtoul (chars (printUlong n))) ≠ n := by
  have hdigits : ∀ c ∈ (Nat.toDigits 10 n.toNat).take 19, c.isDigit = true :=
    fun c hc => isDigit_toDigits (List.mem_of_mem_take hc)
  have hascii : ∀ c ∈ (Nat.toDigits 10 n.toNat).take 19, c.toNat < 128 := by
    intro c hc
    have := toNat_isDigit (hdigits c hc)
    omega
  have hlt := ofDigitChars_lt hdigits
  have hpow : Nat.pow 10 ((Nat.toDigits 10 n.toNat).take 19).length ≤ Nat.pow 10 19 :=
    Nat.pow_le_pow_right (by decide) (by rw [List.length_take]; omega)
  have hval : Nat.pow 10 19 = 10000000000000000000 := rfl
  rw [hval] at hpow
  intro heq
  have htoNat := congrArg UInt64.toNat heq
  unfold printUlong snprintf at htoNat
  rw [show (20 - 1 : Nat) = 19 from rfl, chars_ascii hascii, strtoul_digits hdigits,
    UInt64.toNat_ofNat'] at htoNat
  omega

theorem decodeHash_encode (h old : DataHash) : decodeHash (Codec.encode h.1) old = some h := by
  have hlen := h.2
  have henc := Codec.length_encode h.1
  have hgroups := Codec.decodeGroups_encode h.1 ⟨[], 20⟩ (by rw [hlen])
  rw [hlen] at henc
  unfold decodeHash
  cases hcode : Codec.encode h.1 with
  | nil =>
      rw [hcode] at henc
      simp at henc
  | cons c cs =>
      rw [hcode] at hgroups
      have hloop : Codec.decodeLoop (c :: cs).isEmpty ((c :: cs).length + 1) [] (c :: cs)
          ⟨[], 20⟩ = some (true, ⟨h.1, 0⟩) := by
        simp [Codec.decodeLoop, hgroups, hlen]
      have hdrop : old.1.drop 20 = [] := List.drop_eq_nil_of_le (by rw [old.2])
      have htake : h.1.take 20 = h.1 := List.take_of_length_le (by rw [hlen])
      rw [hloop]
      simp only [hlen, hdrop, List.append_nil, htake]

/-! ## Building an object -/

/-- The file an object is created with. Its length comes from `ftell` or `fread`. -/
structure FileData where
  filename : CString
  filepath : CString
  dataLen : UInt64
  dataState : DataState
  dataHash : DataHash
  dataLen_lt : dataLen.toNat < 9223372036854775808

/-- `create`: an object with this file, if any, and the present time. -/
def created (file : FileData) (now : Timeval) : DataObject :=
  setCreateTime { fresh (Metadata.leaf []) with
    filename := file.filename
    filepath := file.filepath
    dataLen := file.dataLen
    origDataLen := file.dataLen
    dataState := file.dataState
    dataHash := file.dataHash } now

/-- What may be done with it. Metadata may be asked for at any time. -/
inductive BuildOp where
  | addAttribute (a : Attribute)
  | setCreateTime (t : Timeval)
  | toMetadata

/-- One operation. -/
def buildStep (d : DataObject) : BuildOp → DataObject
  | .addAttribute a => d.addAttribute a
  | .setCreateTime t => d.setCreateTime t
  | .toMetadata => d.toMetadata

/-- The file goes into the metadata. -/
def HasFile (d : DataObject) : Prop := d.dataLen ≠ 0 ∧ d.filename.length ≠ 0

instance (d : DataObject) : Decidable (HasFile d) := instDecidableAnd

/-- Nothing is in the `Data` node that the object does not have. -/
structure DataNodeInv (d : DataObject) (dm : Metadata) : Prop where
  length : ¬ HasFile d → dm.getParameter (lit "data_len") = none
  name : ¬ HasFile d → dm.getAll (lit "FileName") = []
  path : dm.getAll (lit "FilePath") = []
  hash : d.dataIsVerifiable = false → dm.getAll (lit "FileHash") = []

/-- What holds of an object that is being built. -/
structure BuildInv (d : DataObject) : Prop where
  ordered : Ordered d.attrs
  stamp : d.createTime.isValid = true →
    d.metadata.getParameter (lit "create_time") = some d.createTime.getAsString
  stamped : ∀ s, d.metadata.getParameter (lit "create_time") = some s →
    ∃ t : Timeval, t.isValid = true ∧ s = t.getAsString
  update : d.metadata.getParameter (lit "update_time") = none
  plain : d.isForLocalApp = false ∧ d.encryptedFilePath = [] ∧ d.encryptedFileLength = 0
  unsigned : d.signature = none ∧ d.signatureStatus = .missing ∧
    d.metadata.getAll (lit "Signature") = []
  dataLen_lt : d.dataLen.toNat < 9223372036854775808
  dataNode : ∀ dm ∈ d.metadata.getAll (lit "Data"), DataNodeInv d dm

/-- The signature is not touched where there is none. -/
theorem removeSignature_missing (h : d.signatureStatus = .missing) : d.removeSignature = d := by
  unfold removeSignature
  rw [if_pos h]

theorem buildInv_addAttribute (h : BuildInv d) (a : Attribute) : BuildInv (d.addAttribute a) := by
  unfold addAttribute
  cases hhas : d.hasAttribute a with
  | true => exact h
  | false =>
      have hnew : ∀ b ∈ d.attrs, a.eq b = false := by
        intro b hb
        cases heq : a.eq b with
        | false => rfl
        | true =>
            unfold hasAttribute at hhas
            rw [find_isSome.mpr ⟨b, hb, heq⟩] at hhas
            cases hhas
      simp only [Bool.false_eq_true, if_false]
      rw [removeSignature_missing]
      · refine ⟨ordered_add h.ordered hnew, h.stamp, h.stamped, h.update, h.plain, h.unsigned,
          h.dataLen_lt, ?_⟩
        intro dm hdm
        have hnode := h.dataNode dm hdm
        exact ⟨hnode.length, hnode.name, hnode.path, hnode.hash⟩
      · exact h.unsigned.2.1

theorem buildInv_setCreateTime (h : BuildInv d) (t : Timeval) : BuildInv (d.setCreateTime t) := by
  unfold setCreateTime
  simp only
  rw [removeSignature_missing]
  · cases hvalid : t.isValid with
    | false =>
        simp only [Bool.false_eq_true, if_false]
        refine ⟨h.ordered, ?_, h.stamped, h.update, h.plain, h.unsigned, h.dataLen_lt, ?_⟩
        · intro hcon
          simp only at hcon
          rw [hvalid] at hcon
          cases hcon
        · intro dm hdm
          have hnode := h.dataNode dm hdm
          exact ⟨hnode.length, hnode.name, hnode.path, hnode.hash⟩
    | true =>
        simp only [if_true]
        refine ⟨h.ordered, ?_, ?_, ?_, h.plain, ⟨h.unsigned.1, h.unsigned.2.1, ?_⟩,
          h.dataLen_lt, ?_⟩
        · intro _
          rw [Metadata.getParameter_setParameter, if_pos rfl]
        · intro s hs
          rw [Metadata.getParameter_setParameter, if_pos rfl, Option.some.injEq] at hs
          exact ⟨t, hvalid, hs.symm⟩
        · rw [Metadata.getParameter_setParameter, if_neg (by decide)]
          exact h.update
        · rw [Metadata.getAll_setParameter]
          exact h.unsigned.2.2
        · intro dm hdm
          rw [Metadata.getAll_setParameter] at hdm
          have hnode := h.dataNode dm hdm
          exact ⟨hnode.length, hnode.name, hnode.path, hnode.hash⟩
  · exact h.unsigned.2.1

/-! ## The metadata that are sent -/

/-- What a reader finds in the `Data` node. -/
structure DataNodeReads (d : DataObject) (dm : Metadata) : Prop where
  length : dm.getParameter (lit "data_len") =
    if HasFile d then some (printUlong d.dataLen) else none
  name : (dm.getMetadata (lit "FileName")).map Metadata.getContent =
    if HasFile d then some d.filename else none
  path : dm.getMetadata (lit "FilePath") = none
  hash : (dm.getMetadata (lit "FileHash")).map Metadata.getContent =
    if d.dataIsVerifiable then some (Codec.encode d.dataHash.1) else none

/-- The first child of a name after `modify`. -/
theorem head_modify (m : Metadata) (name : CString) (f : Metadata → Metadata) :
    ∃ rest, (m.modify name f).getAll name =
      f ((m.getAll name).headD (Metadata.leaf [])) :: rest := by
  unfold Metadata.modify
  cases hall : m.getAll name with
  | nil => exact ⟨[], by rw [Metadata.getAll_setAll, if_pos rfl]; rfl⟩
  | cons c cs => exact ⟨cs, by rw [Metadata.getAll_setAll, if_pos rfl]; rfl⟩

/-- The children of a name after `modify`: one is new, the others were there. -/
theorem mem_modify {name : CString} {f : Metadata → Metadata} {c : Metadata}
    (h : c ∈ (m.modify name f).getAll name) :
    c = f ((m.getAll name).headD (Metadata.leaf [])) ∨ c ∈ m.getAll name := by
  unfold Metadata.modify at h
  cases hall : m.getAll name with
  | nil =>
      simp only [hall, Metadata.getAll_setAll, if_true] at h
      exact Or.inl (List.mem_singleton.mp h)
  | cons b bs =>
      simp only [hall, Metadata.getAll_setAll, if_true] at h
      rcases List.mem_cons.mp h with hc | hc
      · exact Or.inl hc
      · exact Or.inr (List.mem_cons_of_mem _ hc)

theorem sendsPlainFile_of_inv (h : BuildInv d) : d.sendsPlainFile = true := by
  unfold sendsPlainFile
  rw [h.plain.2.1]
  simp

theorem putFile_eq (h : BuildInv d) (md : Metadata) :
    d.putFile md = (md.setParameter (lit "data_len") (printUlong d.dataLen)).putContent
      (lit "FileName") d.filename := by
  unfold putFile
  simp only [sendsPlainFile_of_inv h, if_true, h.plain.1, Bool.false_eq_true, if_false]

theorem putHash_eq (h : BuildInv d) (md : Metadata) :
    d.putHash md = md.putContent (lit "FileHash") (Codec.encode d.dataHash.1) := by
  unfold putHash
  simp only [sendsPlainFile_of_inv h, if_true]

/-- A node that holds nothing foreign is still one after the file was put into it. -/
theorem dataNodeInv_putFile (h : BuildInv d) {md : Metadata} (hmd : DataNodeInv d md)
    (hfile : HasFile d) : DataNodeInv d (d.putFile md) := by
  rw [putFile_eq h]
  refine ⟨fun hno => absurd hfile hno, fun hno => absurd hfile hno, ?_, ?_⟩
  · rw [Metadata.getAll_putContent_ne _ (by decide), Metadata.getAll_setParameter]
    exact hmd.path
  · intro hno
    rw [Metadata.getAll_putContent_ne _ (by decide), Metadata.getAll_setParameter]
    exact hmd.hash hno

theorem dataNodeInv_putHash (h : BuildInv d) {md : Metadata} (hmd : DataNodeInv d md)
    (hverifiable : d.dataIsVerifiable = true) : DataNodeInv d (d.putHash md) := by
  rw [putHash_eq h]
  refine ⟨?_, ?_, ?_, ?_⟩
  · intro hno
    rw [Metadata.getParameter_putContent]
    exact hmd.length hno
  · intro hno
    rw [Metadata.getAll_putContent_ne _ (by decide)]
    exact hmd.name hno
  · rw [Metadata.getAll_putContent_ne _ (by decide)]
    exact hmd.path
  · intro hno
    rw [hverifiable] at hno
    cases hno

theorem dataNodeInv_leaf (d : DataObject) : DataNodeInv d (Metadata.leaf []) :=
  ⟨fun _ => rfl, fun _ => rfl, rfl, fun _ => rfl⟩

/-- The metadata once the file is in them. -/
def withFile (d : DataObject) (m : Metadata) : Metadata :=
  if HasFile d then m.modify (lit "Data") d.putFile else m

/-- The metadata once the hash is in them. -/
def withHash (d : DataObject) (m : Metadata) : Metadata :=
  if d.dataIsVerifiable then m.modify (lit "Data") d.putHash else m

/-- `toMetadata` of an object that is neither encrypted nor signed. -/
theorem toMetadata_eq (h : BuildInv d) :
    d.toMetadata = { d with
      metadata := d.attrs.foldl (fun m a => m.addMetadata (lit "Attr") (attrNode a))
        ((withHash d (withFile d (d.metadata.setParameter (lit "persistent")
          (lit (if d.persistent then "yes" else "no"))))).removeMetadata (lit "Attr")) } := by
  have hfile : ((d.dataLen ≠ 0 ∧ d.filename.length ≠ 0) ∨
      (d.encryptedFileLength ≠ 0 ∧ d.encryptedFilePath.length ≠ 0)) ↔ HasFile d := by
    unfold HasFile
    rw [h.plain.2.2]
    simp
  unfold toMetadata withFile withHash putSignature
  simp only [h.unsigned.1, hfile]

/-- What adding children of one name does. -/
theorem foldl_addChildren {α : Type} (kind : CString) (f : α → Metadata) :
    ∀ (l : List α) (m : Metadata),
    let sent := l.foldl (fun m a => m.addMetadata kind (f a)) m
    (∀ name, sent.getParameter name = m.getParameter name) ∧
      (∀ name ≠ kind, sent.getAll name = m.getAll name) ∧
      sent.getAll kind = m.getAll kind ++ l.map f
  | [], m => by simp
  | a :: l, m => by
      obtain ⟨hparam, hother, hsame⟩ := foldl_addChildren kind f l (m.addMetadata kind (f a))
      simp only [List.foldl_cons]
      refine ⟨?_, ?_, ?_⟩
      · intro name
        rw [hparam]
        exact Metadata.getParameter_setAll _ _ _ _
      · intro name hname
        rw [hother name hname]
        unfold Metadata.addMetadata
        rw [Metadata.getAll_setAll, if_neg hname]
      · rw [hsame]
        unfold Metadata.addMetadata
        rw [Metadata.getAll_setAll, if_pos rfl, List.append_assoc]
        rfl

/-- What adding the attributes does. -/
theorem foldl_addMetadata (attrs : List Attribute) (m : Metadata) :
    let sent := attrs.foldl (fun m a => m.addMetadata (lit "Attr") (attrNode a)) m
    (∀ name, sent.getParameter name = m.getParameter name) ∧
      (∀ name ≠ lit "Attr", sent.getAll name = m.getAll name) ∧
      sent.getAll (lit "Attr") = m.getAll (lit "Attr") ++ attrs.map attrNode :=
  foldl_addChildren (lit "Attr") attrNode attrs m

/-- What putting the file and its hash in does to the rest of the metadata. -/
theorem withFile_withHash_other (d : DataObject) (m : Metadata) :
    (∀ name, (withHash d (withFile d m)).getParameter name = m.getParameter name) ∧
      ∀ name ≠ lit "Data", (withHash d (withFile d m)).getAll name = m.getAll name := by
  unfold withHash withFile
  constructor
  · intro name
    split <;> split <;> simp
  · intro name hname
    split <;> split
    · rw [Metadata.getAll_modify_ne _ _ hname, Metadata.getAll_modify_ne _ _ hname]
    · rw [Metadata.getAll_modify_ne _ _ hname]
    · rw [Metadata.getAll_modify_ne _ _ hname]
    · rfl

/-- And to the `Data` node. -/
theorem withFile_withHash_data (h : BuildInv d)
    (hm : ∀ dm ∈ m.getAll (lit "Data"), DataNodeInv d dm) :
    (∀ dm ∈ (withHash d (withFile d m)).getAll (lit "Data"), DataNodeInv d dm) ∧
      (∀ dm, (withHash d (withFile d m)).getMetadata (lit "Data") = some dm →
        DataNodeReads d dm) ∧
      ((withHash d (withFile d m)).getMetadata (lit "Data") = none →
        ¬ HasFile d ∧ d.dataIsVerifiable = false) := by
  -- the node the file is put into, and the one the hash is put into
  have hhead : ∀ m' : Metadata, (∀ dm ∈ m'.getAll (lit "Data"), DataNodeInv d dm) →
      DataNodeInv d ((m'.getAll (lit "Data")).headD (Metadata.leaf [])) := by
    intro m' hm'
    cases hall : m'.getAll (lit "Data") with
    | nil => exact dataNodeInv_leaf d
    | cons c cs => exact hm' c (by rw [hall]; exact List.mem_cons_self)
  have hfileInv : ∀ dm ∈ (withFile d m).getAll (lit "Data"), DataNodeInv d dm := by
    unfold withFile
    split
    · next hfile =>
        intro dm hdm
        rcases mem_modify hdm with rfl | hold
        · exact dataNodeInv_putFile h (hhead m hm) hfile
        · exact hm dm hold
    · exact hm
  have hfileReads : ∀ dm, (withFile d m).getMetadata (lit "Data") = some dm → HasFile d →
      dm.getParameter (lit "data_len") = some (printUlong d.dataLen) ∧
        (dm.getMetadata (lit "FileName")).map Metadata.getContent = some d.filename := by
    intro dm hdm hfile
    unfold withFile at hdm
    rw [if_pos hfile] at hdm
    obtain ⟨rest, hrest⟩ := head_modify m (lit "Data") d.putFile
    unfold Metadata.getMetadata at hdm
    rw [hrest, List.head?_cons, Option.some.injEq, putFile_eq h] at hdm
    rw [← hdm]
    refine ⟨?_, Metadata.getContent_putContent _ _ _⟩
    rw [Metadata.getParameter_putContent, Metadata.getParameter_setParameter, if_pos rfl]
  have hfileNone : (withFile d m).getMetadata (lit "Data") = none → ¬ HasFile d := by
    intro hnone hfile
    unfold withFile at hnone
    rw [if_pos hfile] at hnone
    obtain ⟨rest, hrest⟩ := head_modify m (lit "Data") d.putFile
    unfold Metadata.getMetadata at hnone
    rw [hrest] at hnone
    cases hnone
  have hnoFile : ∀ dm, DataNodeInv d dm → ¬ HasFile d →
      dm.getParameter (lit "data_len") = none ∧ dm.getMetadata (lit "FileName") = none := by
    intro dm hdm hno
    refine ⟨hdm.length hno, ?_⟩
    unfold Metadata.getMetadata
    rw [hdm.name hno]
    rfl
  have hnoPath : ∀ dm, DataNodeInv d dm → dm.getMetadata (lit "FilePath") = none := by
    intro dm hdm
    unfold Metadata.getMetadata
    rw [hdm.path]
    rfl
  unfold withHash
  cases hverifiable : d.dataIsVerifiable with
  | false =>
      simp only [Bool.false_eq_true, if_false]
      refine ⟨hfileInv, ?_, fun hnone => ⟨hfileNone hnone, trivial⟩⟩
      intro dm hdm
      have hinv := hfileInv dm (List.mem_of_mem_head? hdm)
      refine ⟨?_, ?_, hnoPath dm hinv, ?_⟩
      · split
        · next hfile => exact (hfileReads dm hdm hfile).1
        · next hno => exact (hnoFile dm hinv hno).1
      · split
        · next hfile => exact (hfileReads dm hdm hfile).2
        · next hno => rw [(hnoFile dm hinv hno).2]; rfl
      · unfold Metadata.getMetadata
        rw [hinv.hash hverifiable, hverifiable]
        rfl
  | true =>
      simp only [if_true]
      obtain ⟨rest, hrest⟩ := head_modify (withFile d m) (lit "Data") d.putHash
      have hold := hhead (withFile d m) hfileInv
      refine ⟨?_, ?_, ?_⟩
      · intro dm hdm
        rcases mem_modify hdm with rfl | hmem
        · exact dataNodeInv_putHash h hold hverifiable
        · exact hfileInv dm hmem
      · intro dm hdm
        unfold Metadata.getMetadata at hdm
        rw [hrest, List.head?_cons, Option.some.injEq] at hdm
        have hinv := dataNodeInv_putHash h hold hverifiable
        rw [hdm] at hinv
        have hdm' := hdm
        rw [putHash_eq h] at hdm'
        refine ⟨?_, ?_, hnoPath dm hinv, ?_⟩
        · split
          · next hfile =>
              cases hall : (withFile d m).getAll (lit "Data") with
              | nil => exact absurd hfile (hfileNone (by unfold Metadata.getMetadata; rw [hall]; rfl))
              | cons c cs =>
                  have hreads := hfileReads c (by unfold Metadata.getMetadata; rw [hall]; rfl) hfile
                  rw [hall, List.headD_cons] at hdm'
                  rw [← hdm', Metadata.getParameter_putContent]
                  exact hreads.1
          · next hno => exact (hnoFile dm hinv hno).1
        · split
          · next hfile =>
              cases hall : (withFile d m).getAll (lit "Data") with
              | nil => exact absurd hfile (hfileNone (by unfold Metadata.getMetadata; rw [hall]; rfl))
              | cons c cs =>
                  have hreads := hfileReads c (by unfold Metadata.getMetadata; rw [hall]; rfl) hfile
                  rw [hall, List.headD_cons] at hdm'
                  rw [← hdm']
                  unfold Metadata.getMetadata at hreads ⊢
                  rw [Metadata.getAll_putContent_ne _ (by decide)]
                  exact hreads.2
          · next hno => rw [(hnoFile dm hinv hno).2]; rfl
        · rw [← hdm', Metadata.getContent_putContent, hverifiable]
          rfl
      · intro hnone
        unfold Metadata.getMetadata at hnone
        rw [hrest] at hnone
        cases hnone

/-- The metadata that are sent. -/
structure Sent (d : DataObject) (m : Metadata) : Prop where
  create : m.getParameter (lit "create_time") = d.metadata.getParameter (lit "create_time")
  update : m.getParameter (lit "update_time") = none
  attrs : m.getAll (lit "Attr") = d.attrs.map attrNode
  signature : m.getAll (lit "Signature") = []
  reads : ∀ dm, m.getMetadata (lit "Data") = some dm → DataNodeReads d dm
  nothing : m.getMetadata (lit "Data") = none → ¬ HasFile d ∧ d.dataIsVerifiable = false

/-- The `Data` nodes of what is sent, and everything a reader looks at. -/
theorem toMetadata_spec (h : BuildInv d) :
    Sent d d.toMetadata.metadata ∧
      ∀ dm ∈ d.toMetadata.metadata.getAll (lit "Data"), DataNodeInv d dm := by
  rw [toMetadata_eq h]
  simp only
  -- the parameter, the file and the hash come before the attributes and do not meet them
  generalize hbase : d.metadata.setParameter (lit "persistent")
    (lit (if d.persistent then "yes" else "no")) = base
  have hbaseAll : ∀ name, base.getAll name = d.metadata.getAll name := by
    intro name
    rw [← hbase, Metadata.getAll_setParameter]
  have hbaseParam : ∀ name ≠ lit "persistent",
      base.getParameter name = d.metadata.getParameter name := by
    intro name hname
    rw [← hbase, Metadata.getParameter_setParameter, if_neg hname]
  obtain ⟨hparam, hother⟩ := withFile_withHash_other d base
  obtain ⟨hinv, hreads, hnothing⟩ := withFile_withHash_data h
    (fun dm hdm => h.dataNode dm (by rw [← hbaseAll]; exact hdm))
  obtain ⟨hfparam, hfother, hfattrs⟩ := foldl_addMetadata d.attrs
    ((withHash d (withFile d base)).removeMetadata (lit "Attr"))
  have hremoved : ∀ name ≠ lit "Attr", ((withHash d (withFile d base)).removeMetadata
      (lit "Attr")).getAll name = (withHash d (withFile d base)).getAll name := by
    intro name hname
    unfold Metadata.removeMetadata
    rw [Metadata.getAll_setAll, if_neg hname]
  have hremovedParam : ∀ name, ((withHash d (withFile d base)).removeMetadata
      (lit "Attr")).getParameter name = (withHash d (withFile d base)).getParameter name :=
    fun name => Metadata.getParameter_setAll _ _ _ _
  -- only `Attr` was taken out and written again
  refine ⟨⟨?_, ?_, ?_, ?_, ?_, ?_⟩, ?_⟩
  · rw [hfparam, hremovedParam, hparam, hbaseParam _ (by decide)]
  · rw [hfparam, hremovedParam, hparam, hbaseParam _ (by decide)]
    exact h.update
  · rw [hfattrs]
    unfold Metadata.removeMetadata
    rw [Metadata.getAll_setAll, if_pos rfl, List.nil_append]
  · rw [hfother _ (by decide), hremoved _ (by decide), hother _ (by decide), hbaseAll]
    exact h.unsigned.2.2
  · intro dm hdm
    refine hreads dm ?_
    unfold Metadata.getMetadata at hdm ⊢
    rw [hfother _ (by decide), hremoved _ (by decide)] at hdm
    exact hdm
  · intro hnone
    refine hnothing ?_
    unfold Metadata.getMetadata at hnone ⊢
    rw [hfother _ (by decide), hremoved _ (by decide)] at hnone
    exact hnone
  · intro dm hdm
    rw [hfother _ (by decide), hremoved _ (by decide)] at hdm
    exact hinv dm hdm

theorem buildInv_toMetadata (h : BuildInv d) : BuildInv d.toMetadata := by
  obtain ⟨hsent, hnodes⟩ := toMetadata_spec h
  have hcreate := hsent.create
  have hupdate := hsent.update
  have hsignature := hsent.signature
  rw [toMetadata_eq h] at hnodes hcreate hupdate hsignature ⊢
  refine ⟨h.ordered, ?_, ?_, hupdate, h.plain, ⟨h.unsigned.1, h.unsigned.2.1, hsignature⟩,
    h.dataLen_lt, ?_⟩
  · intro hvalid
    rw [hcreate]
    exact h.stamp hvalid
  · intro s hs
    rw [hcreate] at hs
    exact h.stamped s hs
  · intro dm hdm
    have hnode := hnodes dm hdm
    exact ⟨hnode.length, hnode.name, hnode.path, hnode.hash⟩

/-- Every object that can be built. -/
theorem buildInv_build (file : FileData) (now : Timeval) (ops : List BuildOp) :
    BuildInv (ops.foldl buildStep (created file now)) := by
  have hstart : BuildInv (created file now) := by
    unfold created
    refine buildInv_setCreateTime ?_ now
    refine ⟨List.Pairwise.nil, ?_, ?_, rfl, ⟨rfl, rfl, rfl⟩, ⟨rfl, rfl, rfl⟩, file.dataLen_lt, ?_⟩
    · intro hvalid
      cases hvalid
    · intro s hs
      cases hs
    · intro dm hdm
      cases hdm
  induction ops using List.reverseRecOn with
  | nil => exact hstart
  | append_singleton ops op ih =>
      rw [List.foldl_append, List.foldl_cons, List.foldl_nil]
      cases op with
      | addAttribute a => exact buildInv_addAttribute ih a
      | setCreateTime t => exact buildInv_setCreateTime ih t
      | toMetadata => exact buildInv_toMetadata ih

/-! ## What the receiver makes of them -/

/-- An attribute as the receiver reads it. -/
def reread (a : Attribute) : Attribute :=
  ⟨a.name, a.value,
    if a.weight ≠ 0 then UInt64.ofNat (strtoul (chars (printUlong a.weight))) else 0⟩

theorem reread_eq_iff (a : Attribute) :
    reread a = a ↔ a.weight.toNat < 10000000000000000000 := by
  have hiff : reread a = a ↔ (if a.weight ≠ 0 then
      UInt64.ofNat (strtoul (chars (printUlong a.weight))) else 0) = a.weight := by
    cases a
    simp only [reread, Attribute.mk.injEq, true_and]
  rw [hiff]
  by_cases hzero : a.weight = 0
  · rw [hzero]
    simp
  · rw [if_pos hzero]
    constructor
    · intro heq
      by_contra hlong
      exact strtoul_printUlong_long (by omega) heq
    · intro hlt
      exact strtoul_printUlong hlt

theorem before_reread {a b : Attribute} : Before (reread a) (reread b) ↔ Before a b := Iff.rfl

/-- One node: the attribute goes to the end. -/
theorem parseAttr_attrNode {a : Attribute} (h : ∀ b ∈ e.attrs, Before b (reread a)) :
    ∃ isNodeDesc, parseAttr e (attrNode a) =
      { e with attrs := e.attrs ++ [reread a], isNodeDesc := isNodeDesc } := by
  have hname : (attrNode a).getParameter (lit "name") = some a.name := by
    unfold attrNode
    simp only
    split
    · rw [Metadata.getParameter_setParameter, if_neg (by decide),
        Metadata.getParameter_setParameter, if_pos rfl]
    · rw [Metadata.getParameter_setParameter, if_pos rfl]
  have hvalue : (attrNode a).getContent = a.value := by
    unfold attrNode
    simp only
    split
    · rw [Metadata.getContent_setParameter, Metadata.getContent_setParameter]
      rfl
    · rw [Metadata.getContent_setParameter]
      rfl
  have hweight : (attrNode a).getParameter (lit "weight") =
      if a.weight ≠ 0 then some (printUlong a.weight) else none := by
    unfold attrNode
    simp only
    split
    · rw [Metadata.getParameter_setParameter, if_pos rfl]
    · rw [Metadata.getParameter_setParameter, if_neg (by decide)]
      rfl
  -- every attribute there comes before this one, so none equals it
  have hnew : (find e.attrs (reread a)).isSome = false := by
    rw [Bool.eq_false_iff]
    intro hsome
    obtain ⟨b, hb, heq⟩ := find_isSome.mp hsome
    rw [eq_comm', (h b hb).2] at heq
    cases heq
  have hparse : parseAttr e (attrNode a) =
      if a.name = lit "NodeDescription" then
        { e with attrs := e.attrs ++ [reread a], isNodeDesc := true }
      else { e with attrs := e.attrs ++ [reread a] } := by
    unfold parseAttr hasAttribute
    have hadd := add_last h
    unfold reread at hnew hadd ⊢
    -- a weight of zero is not written, and read again as zero
    by_cases hzero : a.weight = 0
    · rw [if_neg (not_not.mpr hzero)] at hweight hnew hadd ⊢
      simp only [hname, hvalue, hweight, Option.getD_some]
      split
      · simp only [hnew, Bool.false_eq_true, if_false, hadd]
      · simp only [hnew, Bool.false_eq_true, if_false, hadd]
    · rw [if_pos hzero] at hweight hnew hadd ⊢
      simp only [hname, hvalue, hweight, Option.getD_some]
      split
      · simp only [hnew, Bool.false_eq_true, if_false, hadd]
      · simp only [hnew, Bool.false_eq_true, if_false, hadd]
  rw [hparse]
  split
  · exact ⟨true, rfl⟩
  · exact ⟨e.isNodeDesc, rfl⟩

/-- All nodes: the attributes come in the order they were in. -/
theorem foldl_parseAttr : ∀ (attrs : List Attribute) (e : DataObject),
    (e.attrs ++ attrs.map reread).Pairwise Before →
    ∃ isNodeDesc, (attrs.map attrNode).foldl parseAttr e =
      { e with attrs := e.attrs ++ attrs.map reread, isNodeDesc := isNodeDesc }
  | [], e, _ => ⟨e.isNodeDesc, by simp⟩
  | a :: attrs, e, h => by
      have hlast : ∀ b ∈ e.attrs, Before b (reread a) := by
        intro b hb
        exact (List.pairwise_append.mp h).2.2 b hb (reread a) List.mem_cons_self
      obtain ⟨isNodeDesc, hone⟩ := parseAttr_attrNode hlast
      have hnext : ((e.attrs ++ [reread a]) ++ attrs.map reread).Pairwise Before := by
        rw [List.append_assoc]
        exact h
      obtain ⟨isNodeDesc', hrest⟩ := foldl_parseAttr attrs
        { e with attrs := e.attrs ++ [reread a], isNodeDesc := isNodeDesc } hnext
      refine ⟨isNodeDesc', ?_⟩
      rw [List.map_cons, List.foldl_cons, hone, hrest]
      simp only [List.append_assoc, List.map_cons, List.singleton_append]

/-- A receiver that has not seen the `Data` node yet. -/
structure NoDataYet (e : DataObject) : Prop where
  state : e.dataState = .unknown
  name : e.filename = []
  length : e.dataLen = 0
  plain : e.encryptedFilePath = []

theorem hasFile_iff (d : DataObject) : HasFile d ↔ 0 < d.filename.length ∧ 0 < d.dataLen := by
  unfold HasFile
  rw [UInt64.lt_iff_toNat_lt, ne_eq, ← UInt64.toNat_inj]
  have hzero : (0 : UInt64).toNat = 0 := rfl
  rw [hzero]
  omega

/-- Without a `Data` node there is nothing about the file on either side. -/
theorem payloadFields_nothing (he : NoDataYet e) (hfile : ¬ HasFile d)
    (hverifiable : d.dataIsVerifiable = false) : payloadFields e = payloadFields d := by
  have hstate : e.dataIsVerifiable = false := by
    unfold dataIsVerifiable
    rw [he.state]
  unfold payloadFields
  rw [hstate, hverifiable, if_neg (fun h => hfile ((hasFile_iff d).mpr h)), he.name]
  rfl

/-- With one, the receiver gets what the sender has. -/
theorem parseData_spec {dm : Metadata} (h : BuildInv d) (he : NoDataYet e)
    (hreads : DataNodeReads d dm) :
    payloadFields (e.parseData dm).1 = payloadFields d ∧
      (e.parseData dm).1.attrs = e.attrs ∧ (e.parseData dm).1.createTime = e.createTime ∧
      (e.parseData dm).1.signatureStatus = e.signatureStatus ∧
      (e.parseData dm).1.metadata = e.metadata := by
  have hlen : d.dataLen.toNat < 10000000000000000000 := by
    have := h.dataLen_lt
    omega
  -- length and name, as the sender has them or as they were
  have hfileFields : ∃ len orig name, (e.parseData dm).1 =
      (if d.dataIsVerifiable then
        { e with dataLen := len, origDataLen := orig, filename := name, dataHash := d.dataHash,
                 dataState := .notVerified }
      else { e with dataLen := len, origDataLen := orig, filename := name }) ∧
      (HasFile d → len = d.dataLen ∧ name = d.filename) ∧ (¬ HasFile d → name = []) := by
    have hpath := hreads.path
    have hhash := hreads.hash
    unfold parseData parseFilePath
    by_cases hfile : HasFile d
    · have hlength := hreads.length
      have hname := hreads.name
      rw [if_pos hfile] at hlength hname
      obtain ⟨nm, hnm, hcontent⟩ := Option.map_eq_some_iff.mp hname
      refine ⟨d.dataLen, d.dataLen, d.filename, ?_, fun _ => ⟨rfl, rfl⟩, fun hno => absurd hfile hno⟩
      simp only [hlength, strtoul_printUlong hlen, hnm, hcontent, hpath, he.state, if_true]
      cases hverifiable : d.dataIsVerifiable with
      | false =>
          rw [hverifiable] at hhash
          have hnone := Option.map_eq_none_iff.mp hhash
          simp only [hnone, Bool.false_eq_true, if_false]
      | true =>
          rw [hverifiable] at hhash
          obtain ⟨hm, hhm, hcode⟩ := Option.map_eq_some_iff.mp hhash
          simp only [hhm, hcode, decodeHash_encode, if_true]
    · have hlength := hreads.length
      have hname := hreads.name
      rw [if_neg hfile] at hlength hname
      have hnm := Option.map_eq_none_iff.mp hname
      refine ⟨e.dataLen, e.origDataLen, e.filename, ?_, fun hyes => absurd hyes hfile,
        fun _ => he.name⟩
      simp only [hlength, hnm, hpath, he.state, if_true]
      cases hverifiable : d.dataIsVerifiable with
      | false =>
          rw [hverifiable] at hhash
          have hnone := Option.map_eq_none_iff.mp hhash
          simp only [hnone, Bool.false_eq_true, if_false, ← he.state]
      | true =>
          rw [hverifiable] at hhash
          obtain ⟨hm, hhm, hcode⟩ := Option.map_eq_some_iff.mp hhash
          simp only [hhm, hcode, decodeHash_encode, if_true]
  obtain ⟨len, orig, name, heq, hyes, hno⟩ := hfileFields
  rw [heq]
  cases hverifiable : d.dataIsVerifiable with
  | true =>
      simp only [if_true, and_self, and_true]
      unfold payloadFields
      rw [hverifiable, h.plain.2.1]
      simp only [dataIsVerifiable, he.plain, List.length_nil, if_true]
  | false =>
      simp only [Bool.false_eq_true, if_false, and_self, and_true]
      unfold payloadFields
      rw [hverifiable]
      simp only [dataIsVerifiable, he.state, Bool.false_eq_true, if_false]
      by_cases hfile : HasFile d
      · obtain ⟨rfl, rfl⟩ := hyes hfile
        rfl
      · rw [if_neg (fun h => hfile ((hasFile_iff d).mpr h)), hno hfile]
        rfl

theorem parseKind_eq (e : DataObject) (m : Metadata) :
    ∃ isNodeDesc controlMessage, e.parseKind m =
      { e with isNodeDesc := isNodeDesc, controlMessage := controlMessage } := by
  unfold parseKind
  cases (m.getMetadata (lit "Node")).isSome with
  | false =>
      simp only [Bool.false_eq_true, if_false]
      split
      · split
        · exact ⟨e.isNodeDesc, true, rfl⟩
        · exact ⟨e.isNodeDesc, e.controlMessage, rfl⟩
      · exact ⟨e.isNodeDesc, e.controlMessage, rfl⟩
  | true =>
      simp only [if_true]
      split
      · split
        · exact ⟨true, true, rfl⟩
        · exact ⟨true, e.controlMessage, rfl⟩
      · exact ⟨true, e.controlMessage, rfl⟩

/-- The `Data` node and the signature, for a receiver that has read everything else. -/
theorem parseDataNode_spec {d e : DataObject} (h : BuildInv d) (hsent : Sent d e.metadata)
    (he : NoDataYet e) (hsig : e.signatureStatus = .missing) :
    ∃ d', e.parseDataNode.parseSignature = some d' ∧ d'.attrs = e.attrs ∧
      d'.createTime = e.createTime ∧ payloadFields d' = payloadFields d := by
  have hunsigned : ∀ e' : DataObject, e'.signatureStatus = .missing →
      e'.metadata.getAll (lit "Signature") = [] → e'.parseSignature = some e' := by
    intro e' hstatus hnone
    unfold parseSignature Metadata.getMetadata
    rw [if_pos hstatus, hnone]
    rfl
  unfold parseDataNode
  cases hall : e.metadata.getAll (lit "Data") with
  | nil =>
      obtain ⟨hfile, hverifiable⟩ := hsent.nothing (by unfold Metadata.getMetadata; rw [hall]; rfl)
      exact ⟨e, hunsigned e hsig hsent.signature, rfl, rfl,
        payloadFields_nothing he hfile hverifiable⟩
  | cons dm rest =>
      have hreads := hsent.reads dm (by unfold Metadata.getMetadata; rw [hall]; rfl)
      obtain ⟨hpayload, hattrs, htime, hstatus, hmeta⟩ := parseData_spec h he hreads
      simp only
      generalize hparsed : (e.parseData dm).1 = e1 at *
      refine ⟨_, hunsigned _ ?_ ?_, hattrs, htime, hpayload⟩
      · rw [hstatus]
        exact hsig
      · rw [Metadata.getAll_setAll, if_neg (by decide), hmeta]
        exact hsent.signature

/-- Whether the create time is read, and what becomes of the rest. -/
theorem receive_spec (h : BuildInv d) (hsent : Sent d m) :
    (readTime m (lit "create_time") noTime = none → receive m = none) ∧
      ∀ t, readTime m (lit "create_time") noTime = some t →
        ∃ d', receive m = some d' ∧ d'.attrs = d.attrs.map reread ∧ d'.createTime = t ∧
          payloadFields d' = payloadFields d := by
  have hupdate : readTime m (lit "update_time") noTime = some noTime := by
    unfold readTime
    rw [hsent.update]
  constructor
  · intro hnone
    unfold receive parseMetadata
    simp only [fresh, hnone, Option.bind_eq_bind, Option.bind_none]
  · intro t ht
    unfold receive parseMetadata
    simp only [fresh, ht, hupdate, Option.bind_eq_bind, Option.bind_some, hsent.attrs]
    generalize hstart : DataObject.mk m [] _ _ _ _ _ _ _ _ _ _ _ _ _ _ _ _ _ _ = start
    have hfields : start.metadata = m ∧ start.attrs = [] ∧ start.createTime = t ∧
        start.signatureStatus = .missing ∧ NoDataYet start := by
      rw [← hstart]
      exact ⟨rfl, rfl, rfl, rfl, rfl, rfl, rfl, rfl⟩
    obtain ⟨hmeta, hempty, htime, hsig, hnodata⟩ := hfields
    obtain ⟨isNodeDesc, controlMessage, hkind⟩ := parseKind_eq start m
    -- the rows arrive in their order, so each one goes to the end
    have hordered : (([] : List Attribute) ++ d.attrs.map reread).Pairwise Before := by
      rw [List.nil_append, List.pairwise_map]
      exact h.ordered.imp before_reread.mpr
    obtain ⟨isNodeDesc', hattrs⟩ := foldl_parseAttr d.attrs (start.parseKind m) (by
      rw [hkind]
      simp only [hempty]
      exact hordered)
    rw [hattrs, hkind]
    simp only [hempty, List.nil_append]
    obtain ⟨d', hd', hattrs', htime', hpayload'⟩ := @parseDataNode_spec d
      { start with attrs := d.attrs.map reread, isNodeDesc := isNodeDesc',
                   controlMessage := controlMessage } h (by simp only [hmeta]; exact hsent)
      ⟨hnodata.state, hnodata.name, hnodata.length, hnodata.plain⟩ hsig
    exact ⟨d', hd', hattrs', htime'.trans htime, hpayload'⟩

/-! ## Agreement -/

/-- The receiver has the same attributes in the same order, and the same identifier. -/
def Agrees (d : DataObject) : Prop :=
  ∃ d', receive d.toMetadata.metadata = some d' ∧ d'.attrs = d.attrs ∧
    ∀ sha1, d'.calcId sha1 = d.calcId sha1

/--
The create time gets through: it is one that travels, or there is none and never was
one, so that none is left in the metadata.
-/
def TimeArrives (d : DataObject) : Prop :=
  if d.createTime.isValid then d.createTime.Travels
  else d.metadata.getParameter (lit "create_time") = none

/-- The time fields, from the hash inputs. -/
theorem timeFields_flatten {d' : DataObject} (hattrs : d'.attrs = d.attrs)
    (hpayload : payloadFields d' = payloadFields d) :
    d'.idInput = d.idInput ↔
      (timeFields d'.createTime).flatten = (timeFields d.createTime).flatten := by
  unfold idInput
  rw [idFields_eq, idFields_eq, hattrs, hpayload]
  simp only [List.flatten_append, List.append_assoc, List.append_cancel_left_eq,
    List.append_cancel_right_eq]

theorem length_getAsString_pos {t : Timeval} (h : t.isValid = true) : t.getAsString ≠ [] := by
  intro hnil
  have hlen := length_getAsString h
  rw [hnil, List.length_nil] at hlen
  omega

/-- The receiver's time fields are the sender's exactly if the time arrives. -/
theorem timeArrives_iff (h : BuildInv d) (hsent : Sent d m) :
    (∃ t, readTime m (lit "create_time") noTime = some t ∧
      (timeFields t).flatten = (timeFields d.createTime).flatten) ↔ TimeArrives d := by
  unfold TimeArrives readTime
  rw [hsent.create]
  cases hvalid : d.createTime.isValid with
  | true =>
      rw [h.stamp hvalid]
      simp only [if_true]
      rw [← travels_iff hvalid]
      have htext : (timeFields d.createTime).flatten = d.createTime.getAsString := by
        unfold timeFields
        rw [if_pos hvalid]
        simp
      rw [htext]
      constructor
      · intro hex
        obtain ⟨t, ht, hflat⟩ := hex
        unfold timeFields at hflat
        cases hvalid' : t.isValid with
        | false =>
            rw [hvalid'] at hflat
            exact absurd hflat.symm (length_getAsString_pos hvalid)
        | true =>
            rw [hvalid'] at hflat
            exact ⟨t, ht, hvalid', by simpa using hflat⟩
      · intro hex
        obtain ⟨t, ht, hvalid', heq⟩ := hex
        refine ⟨t, ht, ?_⟩
        unfold timeFields
        rw [if_pos hvalid', heq]
        simp
  | false =>
      simp only [Bool.false_eq_true, if_false]
      have hempty : (timeFields d.createTime).flatten = [] := by
        unfold timeFields
        rw [if_neg (by rw [hvalid]; simp)]
        rfl
      rw [hempty]
      cases hparam : d.metadata.getParameter (lit "create_time") with
      | none => exact ⟨fun _ => rfl, fun _ => ⟨noTime, rfl, rfl⟩⟩
      | some s =>
          -- an old create time is still there, and the receiver takes it for the object's
          constructor
          · intro hex
            obtain ⟨t, ht, hflat⟩ := hex
            obtain ⟨old, hold, rfl⟩ := h.stamped s hparam
            simp only at ht
            have hlen : (secondsDigits old).length ≤ 17 := by
              by_contra hlong
              rw [ofString_long hold (by omega)] at ht
              cases ht
            rw [ofString_getAsString hold hlen, Option.some.injEq] at ht
            have hvalid' : t.isValid = true := by
              rw [← ht]
              exact hold
            unfold timeFields at hflat
            rw [if_pos hvalid'] at hflat
            exact absurd (by simpa using hflat) (length_getAsString_pos hvalid')
          · intro hnone
            cases hnone

/-- Agreement, for an object as it comes out of a building. -/
theorem agrees_of_buildInv (h : BuildInv d) :
    Agrees d ↔ (∀ a ∈ d.attrs, a.weight.toNat < 10000000000000000000) ∧ TimeArrives d := by
  have hsent := (toMetadata_spec h).1
  obtain ⟨hfails, hreceive⟩ := receive_spec h hsent
  -- a weight that fits its text comes back, a longer one is cut
  have hweights : d.attrs.map reread = d.attrs ↔
      ∀ a ∈ d.attrs, a.weight.toNat < 10000000000000000000 := by
    constructor
    · intro hmap a ha
      rw [← reread_eq_iff]
      exact List.map_inj_left.mp (hmap.trans (List.map_id d.attrs).symm) a ha
    · intro hall
      conv_rhs => rw [← List.map_id d.attrs]
      exact List.map_congr_left (fun a ha => (reread_eq_iff a).mpr (hall a ha))
  rw [← hweights, ← timeArrives_iff h hsent]
  unfold Agrees
  constructor
  · intro hagrees
    obtain ⟨d', hd', hattrs, hid⟩ := hagrees
    -- a create time that cannot be read: nothing arrives
    cases htime : readTime d.toMetadata.metadata (lit "create_time") noTime with
    | none =>
        rw [hfails htime] at hd'
        cases hd'
    | some t =>
        obtain ⟨d'', hd'', hattrs'', htime'', hpayload⟩ := hreceive t htime
        rw [hd', Option.some.injEq] at hd''
        subst hd''
        refine ⟨hattrs''.symm.trans hattrs, t, rfl, ?_⟩
        rw [← htime'']
        exact (timeFields_flatten hattrs hpayload).mp (hid id)
  · intro hboth
    obtain ⟨hmap, t, ht, hflat⟩ := hboth
    obtain ⟨d', hd', hattrs, htime, hpayload⟩ := hreceive t ht
    refine ⟨d', hd', hattrs.trans hmap, ?_⟩
    intro sha1
    unfold calcId
    rw [(timeFields_flatten (hattrs.trans hmap) hpayload).mpr (by rw [htime]; exact hflat)]

/--
**Sender and receiver agree on an object exactly if every weight has at most nineteen
digits and the create time arrives.**
-/
theorem agrees_iff (file : FileData) (now : Timeval) (ops : List BuildOp) :
    Agrees (ops.foldl buildStep (created file now)) ↔
      (∀ a ∈ (ops.foldl buildStep (created file now)).attrs,
        a.weight.toNat < 10000000000000000000) ∧
      TimeArrives (ops.foldl buildStep (created file now)) :=
  agrees_of_buildInv (buildInv_build file now ops)

/-- An object without a file. -/
def noFile : FileData := ⟨[], [], 0, .noData, zeroHash, by decide⟩

/-- A little after the epoch. -/
def firstSecond : Timeval := ⟨1, 5, by decide, by decide, by decide⟩

/-- The largest weight comes back as a tenth of it. -/
theorem long_weight_disagrees :
    ¬ Agrees ([BuildOp.addAttribute ⟨lit "name", lit "value", 18446744073709551615⟩].foldl
      buildStep (created noFile firstSecond)) := by
  rw [agrees_of_buildInv (buildInv_build noFile firstSecond _)]
  intro h
  exact absurd (h.1 ⟨lit "name", lit "value", 18446744073709551615⟩ List.mem_cons_self) (by decide)

end Encoders.Data
