import Encoders.Data.Wire
import Encoders.Coding.DecoderService

/-!
# What a reconstructed object is

The object that `decodeDataObject` returns gets its attributes, its create time and its
signature from the block that arrived last. Where that block was made from the object itself,
all that the block added has a reserved name, and is left out. So the object comes back with
the attributes it had, and with the id, as long as the time survives its text, and a signature
comes with a signee.

Where the block was made from a fragment, it has what the fragment added too. These names are
not left out: the object comes back with attributes that it did not have.
-/

namespace Encoders.Coding

open Encoders.Lib Encoders.Data Encoders.Interest

variable {block d o r : DataObject} {a : Attribute} {attrs : List Attribute} {name path : CString}
variable {d' : DataObject} {written : Written} {α : Type} {c : Copied}
  {sha1 : Digest} {env : DecoderSurroundings} {info : BlockInfo} {file : List Symbol}

/-- An object that is being put together: not signed, its attributes in order. -/
structure Unsigned (d : DataObject) : Prop where
  ordered : Ordered d.attrs
  missing : d.signatureStatus = .missing
  signee : d.signee = []
  signature : d.signature = none

/-- `d'` is `d` with some attributes more, and nothing else that matters. -/
structure Grown (d d' : DataObject) (attrs : List Attribute) : Prop where
  unsigned : Unsigned d'
  mem : ∀ c, c ∈ d'.attrs ↔ c ∈ attrs ∨ c ∈ d.attrs
  createTime : d'.createTime = d.createTime
  payload : payloadFields d' = payloadFields d
  verifiable : d'.dataIsVerifiable = d.dataIsVerifiable

theorem Grown.trans {d d' d'' : DataObject} {as bs : List Attribute} (h : Grown d d' as)
    (h' : Grown d' d'' bs) : Grown d d'' (bs ++ as) := by
  refine ⟨h'.unsigned, fun c => ?_, h'.createTime.trans h.createTime,
    h'.payload.trans h.payload, h'.verifiable.trans h.verifiable⟩
  rw [h'.mem, h.mem, List.mem_append, or_assoc]

/-- Whether an attribute can be added, and what the object is then. -/
theorem grown_tryAddAttribute (h : Unsigned d) (hadd : tryAddAttribute d a = some d') :
    Grown d d' [a] := by
  unfold tryAddAttribute DataObject.addAttribute at hadd
  by_cases hhas : d.hasAttribute a = true
  · rw [if_pos hhas] at hadd
    cases hadd
  · have hnew := find_eq_none_iff.mp (Bool.eq_false_iff.mpr hhas)
    have hmissing : ({ d with attrs := add a d.attrs } : DataObject).signatureStatus = .missing :=
      h.missing
    rw [if_neg hhas, if_neg hhas, removeSignature_missing hmissing, Option.some.injEq] at hadd
    subst hadd
    refine ⟨⟨ordered_add h.ordered hnew, h.missing, h.signee, h.signature⟩, fun c => ?_, rfl, rfl,
      rfl⟩
    rw [List.mem_singleton]
    exact mem_add_iff

theorem tryAddAttribute_isSome :
    (tryAddAttribute d a).isSome = true ↔ ∀ b ∈ d.attrs, a.eq b = false := by
  rw [← find_eq_none_iff]
  unfold tryAddAttribute DataObject.hasAttribute
  cases (find d.attrs a).isSome <;> simp

theorem grown_addAll : ∀ {d d' : DataObject}, Unsigned d →
    addAll attrs d = some d' → Grown d d' attrs.reverse := by
  unfold addAll
  induction attrs with
  | nil =>
      intro d d' h hadd
      cases hadd
      exact ⟨h, fun c => by simp, rfl, rfl, rfl⟩
  | cons a attrs ih =>
      intro d d' h hadd
      rw [List.foldlM_cons] at hadd
      obtain ⟨d₁, hone, hrest⟩ := Option.bind_eq_some_iff.mp hadd
      have hfirst := grown_tryAddAttribute h hone
      rw [List.reverse_cons]
      exact hfirst.trans (ih hfirst.unsigned hrest)

/-! ## What a block carries -/

/-- The attributes that every block has. -/
def parentAttributes (len : Int) (originalId originalName originalCreateTime : CString) :
    List Attribute :=
  [⟨attrNetworkcodingParentCreationTime, originalCreateTime, 0⟩,
    ⟨attrNetworkcodingParentOrigName, originalName, 0⟩,
    ⟨attrParentDataobjectId, originalId, 0⟩,
    ⟨attrNetworkcodingParentOrigLen, ascii (sprintfD len), 0⟩,
    ⟨attrNetworkcodingName, lit "TRUE", 0⟩]

/-- The attributes that a block of a signed object has. -/
def signatureAttributes (signeeName signatureName : CString) (source : DataObject) :
    List Attribute :=
  match source.signature with
  | none => []
  | some signature =>
      [⟨signatureName, Codec.encode signature, 0⟩, ⟨signeeName, source.signee, 0⟩]

theorem grown_addParentAttributes {len : Int} {id time : CString} (h : Unsigned d)
    (hadd : addParentAttributes len id name time d = some d') :
    Grown d d' (parentAttributes len id name time) := by
  unfold addParentAttributes at hadd
  obtain ⟨d₁, h₁, hadd⟩ := Option.bind_eq_some_iff.mp hadd
  by_cases hlen : len = 0
  · rw [if_pos hlen] at hadd
    cases hadd
  · rw [if_neg hlen] at hadd
    obtain ⟨d₂, h₂, hadd⟩ := Option.bind_eq_some_iff.mp hadd
    obtain ⟨d₃, h₃, hadd⟩ := Option.bind_eq_some_iff.mp hadd
    obtain ⟨d₄, h₄, h₅⟩ := Option.bind_eq_some_iff.mp hadd
    have g₁ := grown_tryAddAttribute h h₁
    have g₂ := grown_tryAddAttribute g₁.unsigned h₂
    have g₃ := grown_tryAddAttribute g₂.unsigned h₃
    have g₄ := grown_tryAddAttribute g₃.unsigned h₄
    have g₅ := grown_tryAddAttribute g₄.unsigned h₅
    exact (((g₁.trans g₂).trans g₃).trans g₄).trans g₅

theorem grown_addSignature {signeeName signatureName : CString} {source : DataObject}
    (h : Unsigned d) (hadd : addSignature signeeName signatureName source d = some d') :
    Grown d d' (signatureAttributes signeeName signatureName source) ∧
      source.signature ≠ some [] := by
  unfold addSignature at hadd
  unfold signatureAttributes
  cases hsig : source.signature with
  | none =>
      rw [hsig, Option.some.injEq] at hadd
      subst hadd
      exact ⟨⟨h, fun c => by simp, rfl, rfl, rfl⟩, fun hcon => by cases hcon⟩
  | some signature =>
      rw [hsig] at hadd
      obtain ⟨d₁, h₁, hadd⟩ := Option.bind_eq_some_iff.mp hadd
      by_cases hlen : signature.length = 0
      · rw [if_pos hlen] at hadd
        cases hadd
      · rw [if_neg hlen] at hadd
        have g₁ := grown_tryAddAttribute h h₁
        have g₂ := grown_tryAddAttribute g₁.unsigned hadd
        refine ⟨g₁.trans g₂, fun hcon => hlen ?_⟩
        rw [Option.some.inj hcon]
        rfl

/-- A new object has no attributes. -/
theorem create_spec {contents : Option (List UInt8)} {now : Timeval}
    (h : create sha1 path name contents now = some d) :
    Unsigned d ∧ d.attrs = [] ∧ d.dataIsVerifiable = true ∧
      ∃ bytes, contents = some bytes ∧ payloadFields d = [(sha1 bytes).1] := by
  unfold create at h
  by_cases hpath : path.length = 0
  · rw [if_pos hpath] at h
    cases h
  · rw [if_neg hpath] at h
    obtain ⟨bytes, hbytes, hd⟩ := Option.map_eq_some_iff.mp h
    rw [← hd]
    exact ⟨⟨List.Pairwise.nil, rfl, rfl, rfl⟩, rfl, rfl, bytes, hbytes, rfl⟩

/-- All that a block of an object carries. -/
def carried (sha1 : Digest) (o : DataObject) : List Attribute :=
  signatureAttributes attrNetworkcodingParentOrigSignee attrNetworkcodingParentOrigSignature o ++
    parentAttributes (fileLengthInt o.dataLen.toNat) (getIdStr sha1 o) o.filename
      o.createTime.getAsString

theorem encodeDataObject_spec
    (h : NetworkCodingEncoderService.encodeDataObject sha1 written o = some block) :
    Ordered block.attrs ∧ (∀ c, c ∈ block.attrs ↔ c ∈ carried sha1 o ∨ c ∈ o.attrs) ∧
      o.signature ≠ some [] := by
  unfold NetworkCodingEncoderService.encodeDataObject at h
  obtain ⟨d₁, hcreate, h⟩ := Option.bind_eq_some_iff.mp h
  unfold NetworkCodingEncoderService.addAttributes at h
  obtain ⟨d₂, hall, h⟩ := Option.bind_eq_some_iff.mp h
  obtain ⟨d₃, hparent, hsig⟩ := Option.bind_eq_some_iff.mp h
  obtain ⟨hunsigned, hnone, _⟩ := create_spec hcreate
  have g₂ := grown_addAll hunsigned hall
  have g₃ := grown_addParentAttributes g₂.unsigned hparent
  obtain ⟨g₄, hne⟩ := grown_addSignature g₃.unsigned hsig
  have g := (g₂.trans g₃).trans g₄
  refine ⟨g.unsigned.ordered, fun c => ?_, hne⟩
  rw [g.mem, hnone, ← List.append_assoc, List.mem_append, List.mem_reverse]
  unfold carried
  simp

/-- A fragment says that it is one. -/
theorem mem_fragment {csv : CString} {fragment : DataObject}
    (h : FragmentationEncoderService.encodeDataObject sha1 written csv o = some fragment) :
    ⟨attrFragmentationName, lit "TRUE", 0⟩ ∈ fragment.attrs := by
  unfold FragmentationEncoderService.encodeDataObject at h
  obtain ⟨d₁, hcreate, h⟩ := Option.bind_eq_some_iff.mp h
  unfold FragmentationEncoderService.addAttributes at h
  obtain ⟨d₂, hall, h⟩ := Option.bind_eq_some_iff.mp h
  obtain ⟨d₃, hseq, h⟩ := Option.bind_eq_some_iff.mp h
  obtain ⟨d₄, hname, h⟩ := Option.bind_eq_some_iff.mp h
  have g₂ := grown_addAll (create_spec hcreate).1 hall
  have g₃ := grown_tryAddAttribute g₂.unsigned hseq
  have g₄ := grown_tryAddAttribute g₃.unsigned hname
  dsimp only at h
  by_cases hlen : fileLengthInt o.dataLen.toNat = 0
  · rw [if_pos hlen] at h
    cases h
  · rw [if_neg hlen] at h
    obtain ⟨d₅, h₅, h⟩ := Option.bind_eq_some_iff.mp h
    obtain ⟨d₆, h₆, h⟩ := Option.bind_eq_some_iff.mp h
    obtain ⟨d₇, h₇, h⟩ := Option.bind_eq_some_iff.mp h
    obtain ⟨d₈, h₈, h⟩ := Option.bind_eq_some_iff.mp h
    obtain ⟨t, -, hsig⟩ := Option.bind_eq_some_iff.mp h
    have g₅ := grown_tryAddAttribute g₄.unsigned h₅
    have g₆ := grown_tryAddAttribute g₅.unsigned h₆
    have g₇ := grown_tryAddAttribute g₆.unsigned h₇
    have g₈ := grown_tryAddAttribute g₇.unsigned h₈
    -- the flag is set with the name, and no later attribute takes it away
    have hmem : ⟨attrFragmentationName, lit "TRUE", 0⟩ ∈ d₈.attrs :=
      (((g₅.trans g₆).trans g₇).trans g₈).mem _ |>.mpr
        (Or.inr ((g₄.mem _).mpr (Or.inl List.mem_cons_self)))
    have hstamped : Unsigned (d₈.setCreateTime t) ∧ (d₈.setCreateTime t).attrs = d₈.attrs := by
      unfold DataObject.setCreateTime
      rw [removeSignature_missing (by exact g₈.unsigned.missing)]
      exact ⟨⟨g₈.unsigned.ordered, g₈.unsigned.missing, g₈.unsigned.signee,
        g₈.unsigned.signature⟩, rfl⟩
    refine ((grown_addSignature hstamped.1 hsig).1.mem _).mpr (Or.inr ?_)
    rw [hstamped.2]
    exact hmem

/-- A block made from a fragment has what the fragment has. -/
theorem mem_block_of_fragment {fragment : DataObject}
    (h : NetworkCodingEncoderService.encodeFragment sha1 written fragment = some block)
    {c : Attribute} (hc : c ∈ fragment.attrs) : c ∈ block.attrs := by
  unfold NetworkCodingEncoderService.encodeFragment at h
  obtain ⟨_, -, h⟩ := Option.bind_eq_some_iff.mp h
  obtain ⟨_, -, h⟩ := Option.bind_eq_some_iff.mp h
  obtain ⟨d₁, hcreate, h⟩ := Option.bind_eq_some_iff.mp h
  unfold NetworkCodingEncoderService.addAttributesFromFragDataObject at h
  obtain ⟨d₂, hall, h⟩ := Option.bind_eq_some_iff.mp h
  obtain ⟨_, -, h⟩ := Option.bind_eq_some_iff.mp h
  obtain ⟨_, -, h⟩ := Option.bind_eq_some_iff.mp h
  obtain ⟨d₃, hparent, hsig⟩ := Option.bind_eq_some_iff.mp h
  have g₂ := grown_addAll (create_spec hcreate).1 hall
  have g₃ := grown_addParentAttributes g₂.unsigned hparent
  have g₄ := (grown_addSignature g₃.unsigned hsig).1
  refine (((g₂.trans g₃).trans g₄).mem c).mpr (Or.inl ?_)
  rw [List.mem_append, List.mem_append, List.mem_reverse]
  exact Or.inr (Or.inr hc)

/-! ## What is copied out of a block -/

/-- A value is read from an attribute of the name, or there is none and the value is the old one. -/
def Read {α : Type} (name : CString) (value : Attribute → Option α) (attrs : List Attribute)
    (old new : α) : Prop :=
  (∀ a ∈ attrs, a.name ≠ name) ∧ new = old ∨ ∃ a ∈ attrs, a.name = name ∧ value a = some new

theorem Read.trans {α : Type} {name : CString} {value : Attribute → Option α}
    {as bs : List Attribute} {x y z : α} (h : Read name value as x y)
    (h' : Read name value bs y z) : Read name value (as ++ bs) x z := by
  unfold Read at *
  rcases h' with ⟨hnone', heq'⟩ | ⟨a, ha, hname, hvalue⟩
  · rcases h with ⟨hnone, heq⟩ | ⟨a, ha, hname, hvalue⟩
    · refine Or.inl ⟨fun a ha => ?_, heq'.trans heq⟩
      rcases List.mem_append.mp ha with hmem | hmem
      · exact hnone a hmem
      · exact hnone' a hmem
    · rw [heq']
      exact Or.inr ⟨a, List.mem_append_left _ ha, hname, hvalue⟩
  · exact Or.inr ⟨a, List.mem_append_right _ ha, hname, hvalue⟩

theorem read_other {value : Attribute → Option α} {x : α} (h : a.name ≠ name) :
    Read name value [a] x x := by
  refine Or.inl ⟨fun b hb => ?_, rfl⟩
  rw [List.mem_singleton.mp hb]
  exact h

theorem read_own {value : Attribute → Option α} {x y : α} (h : a.name = name)
    (hvalue : value a = some y) : Read name value [a] x y :=
  Or.inr ⟨a, List.mem_cons_self, h, hvalue⟩

/-- The text of an attribute. -/
def textOf (a : Attribute) : Option CString := some a.value

/-- The time that is the text of an attribute. -/
def timeOf (a : Attribute) : Option Timeval := Timeval.ofString a.value

open NetworkCodingDataObjectUtility

/-- What attributes of a block do to the object that is put together. -/
structure CopiedFrom (c c' : Copied) (attrs : List Attribute) : Prop where
  unsigned : Unsigned c'.object
  mem : ∀ a, a ∈ c'.object.attrs ↔
    a ∈ attrs ∧ a.name ∉ networkcodingNames ∨ a ∈ c.object.attrs
  time : Read attrNetworkcodingParentCreationTime timeOf attrs c.object.createTime
    c'.object.createTime
  signature : Read attrNetworkcodingParentOrigSignature textOf attrs c.parentSignature
    c'.parentSignature
  signee : Read attrNetworkcodingParentOrigSignee textOf attrs c.parentSignee c'.parentSignee
  payload : payloadFields c'.object = payloadFields c.object
  verifiable : c'.object.dataIsVerifiable = c.object.dataIsVerifiable

theorem CopiedFrom.trans {c c₁ c' : Copied} {as bs : List Attribute} (h : CopiedFrom c c₁ as)
    (h' : CopiedFrom c₁ c' bs) : CopiedFrom c c' (as ++ bs) := by
  refine ⟨h'.unsigned, fun a => ?_, h.time.trans h'.time, h.signature.trans h'.signature,
    h.signee.trans h'.signee, h'.payload.trans h.payload, h'.verifiable.trans h.verifiable⟩
  rw [h'.mem, h.mem, List.mem_append]
  tauto

/-- The names are told apart, one after the other. -/
theorem copyAttribute_cases {c' : Copied} (h : copyAttribute c a = some (some c')) :
    (a.name = attrNetworkcodingParentCreationTime ∧
        ∃ t, timeOf a = some t ∧ c' = { c with object := c.object.setCreateTime t }) ∨
      (a.name = attrNetworkcodingParentOrigSignature ∧ c' = { c with parentSignature := a.value }) ∨
      (a.name = attrNetworkcodingParentOrigSignee ∧ c' = { c with parentSignee := a.value }) ∨
      (a.name ∉ networkcodingNames ∧
        ∃ d, tryAddAttribute c.object a = some d ∧ c' = { c with object := d }) ∨
      (a.name ∈ networkcodingNames ∧ a.name ≠ attrNetworkcodingParentCreationTime ∧
        a.name ≠ attrNetworkcodingParentOrigSignature ∧
        a.name ≠ attrNetworkcodingParentOrigSignee ∧ c' = c) := by
  unfold copyAttribute at h
  by_cases htime : a.name = attrNetworkcodingParentCreationTime
  · rw [if_pos htime] at h
    obtain ⟨t, ht, hc⟩ := Option.map_eq_some_iff.mp h
    exact Or.inl ⟨htime, t, ht, (Option.some.inj hc).symm⟩
  · rw [if_neg htime] at h
    by_cases hsig : a.name = attrNetworkcodingParentOrigSignature
    · rw [if_pos hsig] at h
      exact Or.inr (Or.inl ⟨hsig, (Option.some.inj (Option.some.inj h)).symm⟩)
    · rw [if_neg hsig] at h
      by_cases hsignee : a.name = attrNetworkcodingParentOrigSignee
      · rw [if_pos hsignee] at h
        exact Or.inr (Or.inr (Or.inl ⟨hsignee, (Option.some.inj (Option.some.inj h)).symm⟩))
      · rw [if_neg hsignee] at h
        unfold networkcodingNames
        simp only [List.mem_cons, List.not_mem_nil, htime, hsig, hsignee, or_false, not_or]
        split at h
        · next hother =>
            -- a name outside the table is copied
            obtain ⟨d, hd, hc⟩ := Option.map_eq_some_iff.mp (Option.some.inj h)
            refine Or.inr (Or.inr (Or.inr (Or.inl ⟨?_, d, hd, hc.symm⟩)))
            exact ⟨hother.1, hother.2.2.1, hother.2.2.2, hother.2.1⟩
        · next hother =>
            refine Or.inr (Or.inr (Or.inr (Or.inr ⟨?_, htime, hsig, hsignee,
              (Option.some.inj (Option.some.inj h)).symm⟩)))
            refine by_contra (fun hcon => hother ?_)
            rw [not_or, not_or, not_or] at hcon
            exact ⟨hcon.1, hcon.2.2.2, hcon.2.1, hcon.2.2.1⟩

theorem names_apart :
    attrNetworkcodingParentCreationTime ≠ attrNetworkcodingParentOrigSignature ∧
      attrNetworkcodingParentCreationTime ≠ attrNetworkcodingParentOrigSignee ∧
      attrNetworkcodingParentOrigSignature ≠ attrNetworkcodingParentOrigSignee := by decide

theorem names_reserved :
    attrNetworkcodingParentCreationTime ∈ networkcodingNames ∧
      attrNetworkcodingParentOrigSignature ∈ networkcodingNames ∧
      attrNetworkcodingParentOrigSignee ∈ networkcodingNames := by decide

theorem setCreateTime_spec (h : Unsigned d) (t : Timeval) :
    Unsigned (d.setCreateTime t) ∧ (d.setCreateTime t).attrs = d.attrs ∧
      (d.setCreateTime t).createTime = t ∧
      payloadFields (d.setCreateTime t) = payloadFields d ∧
      (d.setCreateTime t).dataIsVerifiable = d.dataIsVerifiable := by
  unfold DataObject.setCreateTime
  rw [removeSignature_missing (by exact h.missing)]
  exact ⟨⟨h.ordered, h.missing, h.signee, h.signature⟩, rfl, rfl, rfl, rfl⟩

theorem copiedFrom_copyAttribute {c' : Copied} (h : Unsigned c.object)
    (hcopy : copyAttribute c a = some (some c')) : CopiedFrom c c' [a] := by
  obtain ⟨hts, hte, hse⟩ := names_apart
  obtain ⟨ht, hs, he⟩ := names_reserved
  -- where the name is reserved, no attribute is added
  have hmem : a.name ∈ networkcodingNames → ∀ b, b ∈ c.object.attrs ↔
      b ∈ [a] ∧ b.name ∉ networkcodingNames ∨ b ∈ c.object.attrs := by
    intro hin b
    refine ⟨Or.inr, fun hor => ?_⟩
    rcases hor with ⟨hb, hnot⟩ | hb
    · rw [List.mem_singleton.mp hb] at hnot
      exact absurd hin hnot
    · exact hb
  rcases copyAttribute_cases hcopy with ⟨hname, t, htime, rfl⟩ | ⟨hname, rfl⟩ | ⟨hname, rfl⟩ |
    ⟨hnot, d, hd, rfl⟩ | ⟨hin, hnt, hns, hne, rfl⟩
  · obtain ⟨hunsigned, hattrs, hstamp, hpayload, hverifiable⟩ := setCreateTime_spec h t
    refine ⟨hunsigned, fun b => ?_, read_own hname (by rw [htime, hstamp]),
      read_other (by rw [hname]; exact hts), read_other (by rw [hname]; exact hte), hpayload,
      hverifiable⟩
    rw [hattrs]
    exact hmem (hname ▸ ht) b
  · exact ⟨h, hmem (hname ▸ hs), read_other (by rw [hname]; exact hts.symm), read_own hname rfl,
      read_other (by rw [hname]; exact hse), rfl, rfl⟩
  · exact ⟨h, hmem (hname ▸ he), read_other (by rw [hname]; exact hte.symm),
      read_other (by rw [hname]; exact hse.symm), read_own hname rfl, rfl, rfl⟩
  · have g := grown_tryAddAttribute h hd
    refine ⟨g.unsigned, fun b => ?_, ?_, read_other (fun heq => hnot (heq ▸ hs)),
      read_other (fun heq => hnot (heq ▸ he)), g.payload, g.verifiable⟩
    · rw [g.mem b, List.mem_singleton]
      constructor
      · intro hor
        rcases hor with rfl | hb
        · exact Or.inl ⟨rfl, hnot⟩
        · exact Or.inr hb
      · intro hor
        rcases hor with ⟨hb, _⟩ | hb
        · exact Or.inl hb
        · exact Or.inr hb
    · dsimp only
      rw [g.createTime]
      exact read_other (fun heq => hnot (heq ▸ ht))
  · exact ⟨h, hmem hin, read_other hnt, read_other hns, read_other hne, rfl, rfl⟩

theorem copiedFrom_copyLoop : ∀ {attrs : List Attribute} {c c' : Copied}, Unsigned c.object →
    copyLoop c attrs = some (some c') → CopiedFrom c c' attrs := by
  intro attrs
  induction attrs with
  | nil =>
      intro c c' h hcopy
      cases hcopy
      have hnil : ∀ {name : CString}, ∀ a ∈ ([] : List Attribute), a.name ≠ name :=
        fun a ha => absurd ha List.not_mem_nil
      exact ⟨h, fun a => by simp, Or.inl ⟨hnil, rfl⟩, Or.inl ⟨hnil, rfl⟩, Or.inl ⟨hnil, rfl⟩,
        rfl, rfl⟩
  | cons a attrs ih =>
      intro c c' h hcopy
      unfold copyLoop at hcopy
      split at hcopy
      · cases hcopy
      · cases hcopy
      · next c₁ hone =>
          have hfirst := copiedFrom_copyAttribute h hone
          exact hfirst.trans (ih hfirst.unsigned hcopy)

/-- Nothing stops the loop: the attributes are new, and the times can be read. -/
theorem copyLoop_isSome : ∀ {attrs : List Attribute} {c : Copied}, Unsigned c.object →
    attrs.Pairwise (fun a b => a.eq b = false) →
    (∀ a ∈ attrs, ∀ b ∈ c.object.attrs, a.eq b = false) →
    (∀ a ∈ attrs, a.name = attrNetworkcodingParentCreationTime → (timeOf a).isSome = true) →
    ∃ c', copyLoop c attrs = some (some c') := by
  intro attrs
  induction attrs with
  | nil => exact fun {c} _ _ _ _ => ⟨c, rfl⟩
  | cons a attrs ih =>
      intro c h hpair hnew htimes
      obtain ⟨ha, hpair'⟩ := List.pairwise_cons.mp hpair
      obtain ⟨c₁, hone⟩ : ∃ c₁, copyAttribute c a = some (some c₁) := by
        -- only a time that cannot be read and an attribute that is there stop the loop
        unfold copyAttribute
        by_cases htime : a.name = attrNetworkcodingParentCreationTime
        · obtain ⟨t, ht⟩ := Option.isSome_iff_exists.mp (htimes a List.mem_cons_self htime)
          unfold timeOf at ht
          rw [if_pos htime, ht]
          exact ⟨_, rfl⟩
        · rw [if_neg htime]
          split
          · exact ⟨_, rfl⟩
          · split
            · exact ⟨_, rfl⟩
            · split
              · obtain ⟨d, hd⟩ := Option.isSome_iff_exists.mp
                  (tryAddAttribute_isSome.mpr (hnew a List.mem_cons_self))
                rw [hd]
                exact ⟨_, rfl⟩
              · exact ⟨_, rfl⟩
      have hcopied := copiedFrom_copyAttribute h hone
      unfold copyLoop
      rw [hone]
      refine ih hcopied.unsigned hpair' (fun b hb x hx => ?_)
        (fun b hb => htimes b (List.mem_cons_of_mem _ hb))
      rcases (hcopied.mem x).mp hx with ⟨hx, _⟩ | hx
      · rw [List.mem_singleton.mp hx, eq_comm']
        exact ha b hb
      · exact hnew b (List.mem_cons_of_mem _ hb) x hx

/-! ## A block of the object itself -/

/-- An object that can have blocks: its attributes are in order, and no name of them is reserved. -/
structure Original (o : DataObject) : Prop where
  ordered : Ordered o.attrs
  plain : ∀ a ∈ o.attrs, a.name ∉ networkcodingNames ∧ a.name ∉ fragmentationNames

/-- The attributes of a block say what the object is. -/
structure Carries (o : DataObject) (attrs : List Attribute) : Prop where
  ordered : Ordered attrs
  own : ∀ a, a ∈ attrs ∧ a.name ∉ networkcodingNames ↔ a ∈ o.attrs
  stamped : ∃ a ∈ attrs, a.name = attrNetworkcodingParentCreationTime
  time : ∀ a ∈ attrs, a.name = attrNetworkcodingParentCreationTime →
    a.value = o.createTime.getAsString
  signed : ∀ s, o.signature = some s → s ≠ [] ∧
    (∃ a ∈ attrs, a.name = attrNetworkcodingParentOrigSignature) ∧
    ∃ a ∈ attrs, a.name = attrNetworkcodingParentOrigSignee
  signature : ∀ a ∈ attrs, a.name = attrNetworkcodingParentOrigSignature →
    ∃ s, o.signature = some s ∧ a.value = Codec.encode s
  signee : ∀ a ∈ attrs, a.name = attrNetworkcodingParentOrigSignee →
    (∃ s, o.signature = some s) ∧ a.value = o.signee

theorem mem_carried :
    a ∈ carried sha1 o ↔
      (∃ s, o.signature = some s ∧
        (a = ⟨attrNetworkcodingParentOrigSignature, Codec.encode s, 0⟩ ∨
          a = ⟨attrNetworkcodingParentOrigSignee, o.signee, 0⟩)) ∨
      a = ⟨attrNetworkcodingParentCreationTime, o.createTime.getAsString, 0⟩ ∨
      a = ⟨attrNetworkcodingParentOrigName, o.filename, 0⟩ ∨
      a = ⟨attrParentDataobjectId, getIdStr sha1 o, 0⟩ ∨
      a = ⟨attrNetworkcodingParentOrigLen,
        ascii (sprintfD (fileLengthInt o.dataLen.toNat)), 0⟩ ∨
      a = ⟨attrNetworkcodingName, lit "TRUE", 0⟩ := by
  unfold carried signatureAttributes parentAttributes
  rw [List.mem_append]
  cases o.signature with
  | none => simp only [List.not_mem_nil, List.mem_cons, false_or, or_false, reduceCtorEq, false_and,
      exists_false]
  | some s => simp only [List.mem_cons, List.not_mem_nil, or_false, Option.some.injEq,
      exists_eq_left']

theorem name_carried (h : a ∈ carried sha1 o) : a.name ∈ networkcodingNames := by
  rcases mem_carried.mp h with ⟨s, -, rfl | rfl⟩ | rfl | rfl | rfl | rfl | rfl <;> dsimp only <;>
    decide

/-- Whose name tells what it says. -/
theorem carried_cases (h : a ∈ carried sha1 o) :
    (a.name = attrNetworkcodingParentOrigSignature ∧
        ∃ s, o.signature = some s ∧ a.value = Codec.encode s) ∨
      (a.name = attrNetworkcodingParentOrigSignee ∧
        (∃ s, o.signature = some s) ∧ a.value = o.signee) ∨
      (a.name = attrNetworkcodingParentCreationTime ∧ a.value = o.createTime.getAsString) ∨
      (a.name ≠ attrNetworkcodingParentOrigSignature ∧
        a.name ≠ attrNetworkcodingParentOrigSignee ∧
        a.name ≠ attrNetworkcodingParentCreationTime) := by
  rcases mem_carried.mp h with ⟨s, hs, rfl | rfl⟩ | rfl | hrest
  · exact Or.inl ⟨rfl, s, hs, rfl⟩
  · exact Or.inr (Or.inl ⟨rfl, ⟨s, hs⟩, rfl⟩)
  · exact Or.inr (Or.inr (Or.inl ⟨rfl, rfl⟩))
  · refine Or.inr (Or.inr (Or.inr ?_))
    rcases hrest with rfl | rfl | rfl | rfl <;> dsimp only <;> decide

theorem carries_block (ho : Original o)
    (h : NetworkCodingEncoderService.encodeDataObject sha1 written o = some block) :
    Carries o block.attrs := by
  obtain ⟨hordered, hmem, hne⟩ := encodeDataObject_spec h
  obtain ⟨hts, hte, hse⟩ := names_apart
  obtain ⟨ht, hs, he⟩ := names_reserved
  -- an attribute with a reserved name is none of the object's
  have hcarried : ∀ {a}, a ∈ block.attrs → a.name ∈ networkcodingNames → a ∈ carried sha1 o := by
    intro a ha hname
    rcases (hmem a).mp ha with hc | hown
    · exact hc
    · exact absurd hname (ho.plain a hown).1
  have hin : ∀ {a}, a ∈ carried sha1 o → a ∈ block.attrs := fun {a} ha => (hmem a).mpr (Or.inl ha)
  refine ⟨hordered, fun a => ⟨fun ha => ?_, fun ha => ?_⟩, ?_, fun a ha hname => ?_, ?_,
    fun a ha hname => ?_, fun a ha hname => ?_⟩
  · rcases (hmem a).mp ha.1 with hc | hown
    · exact absurd (name_carried hc) ha.2
    · exact hown
  · exact ⟨(hmem a).mpr (Or.inr ha), (ho.plain a ha).1⟩
  · exact ⟨_, hin (mem_carried.mpr (Or.inr (Or.inl rfl))), rfl⟩
  · rcases carried_cases (hcarried ha (hname ▸ ht)) with ⟨hn, _⟩ | ⟨hn, _⟩ | ⟨_, hvalue⟩ | hn
    · exact absurd (hname.symm.trans hn) hts
    · exact absurd (hname.symm.trans hn) hte
    · exact hvalue
    · exact absurd hname hn.2.2
  · intro s hsig
    refine ⟨fun hnil => hne (by rw [hsig, hnil]), ⟨_, hin (mem_carried.mpr (Or.inl ⟨s, hsig,
      Or.inl rfl⟩)), rfl⟩, ⟨_, hin (mem_carried.mpr (Or.inl ⟨s, hsig, Or.inr rfl⟩)), rfl⟩⟩
  · rcases carried_cases (hcarried ha (hname ▸ hs)) with ⟨_, hvalue⟩ | ⟨hn, _⟩ | ⟨hn, _⟩ | hn
    · exact hvalue
    · exact absurd (hname.symm.trans hn) hse
    · exact absurd (hn.symm.trans hname) hts
    · exact absurd hname hn.1
  · rcases carried_cases (hcarried ha (hname ▸ he)) with ⟨hn, _⟩ | ⟨_, hvalue⟩ | ⟨hn, _⟩ | hn
    · exact absurd (hn.symm.trans hname) hse
    · exact hvalue
    · exact absurd (hn.symm.trans hname) hte
    · exact absurd hname hn.2.1

/-! ## Putting the object together -/

/-- What stays of an object: what it says, who signed it, and its id. -/
structure SameIdentity (r o : DataObject) : Prop where
  attrs : r.attrs = o.attrs
  createTime : r.createTime = o.createTime
  signee : r.signee = o.signee
  signature : r.signature = o.signature
  id : ∀ digest : List UInt8 → List UInt8, r.calcId digest = o.calcId digest

/-- What a block of the object itself brings back: a create time that its text keeps, a signee
exactly if there is a signature, and an id that was made with the hash of the file. -/
structure Lasting (sha1 : Digest) (file : List Symbol) (o : DataObject) : Prop where
  time : o.createTime.Kept
  signed : o.signature.isSome = true ↔ o.signee ≠ []
  payload : (payloadFields o).flatten = (sha1 (fileBytes file)).1

theorem Read.eq_old {value : Attribute → Option α} {x y : α} (h : Read name value attrs x y)
    (hnone : ∀ a ∈ attrs, a.name ≠ name) : y = x := by
  rcases h with ⟨_, heq⟩ | ⟨a, ha, hname, _⟩
  · exact heq
  · exact absurd hname (hnone a ha)

theorem Read.eq_new {value : Attribute → Option α} {x y : α} {v : Option α}
    (h : Read name value attrs x y) (hin : ∃ a ∈ attrs, a.name = name)
    (hvalue : ∀ a ∈ attrs, a.name = name → value a = v) : v = some y := by
  rcases h with ⟨hnone, _⟩ | ⟨a, ha, hname, hread⟩
  · obtain ⟨a, ha, hname⟩ := hin
    exact absurd hname (hnone a ha)
  · rw [← hvalue a ha hname]
    exact hread

/-- Encrypted or not, the object has its attributes, and the same file. -/
theorem restoreEncryptedDataObject_spec (h : d.dataIsVerifiable = true) :
    (restoreEncryptedDataObject d).attrs = d.attrs ∧
      (restoreEncryptedDataObject d).createTime = d.createTime ∧
      (restoreEncryptedDataObject d).signee = d.signee ∧
      (restoreEncryptedDataObject d).signature = d.signature ∧
      payloadFields (restoreEncryptedDataObject d) = payloadFields d := by
  unfold restoreEncryptedDataObject
  split
  · split
    · next hpaths =>
        refine ⟨rfl, rfl, rfl, rfl, ?_⟩
        have hverifiable : ({ d with
            encryptedFilePath := d.filepath
            encryptedFileHash := d.dataHash
            encryptedFileLength := d.dataLen
            filepath := []
            dataLen := 0
            dataHash := zeroHash } : DataObject).dataIsVerifiable = true := h
        unfold payloadFields
        rw [hverifiable, h, if_pos rfl, if_pos rfl, if_pos hpaths.1,
          if_neg (Nat.pos_iff_ne_zero.mp hpaths.2)]
    · exact ⟨rfl, rfl, rfl, rfl, rfl⟩
  · exact ⟨rfl, rfl, rfl, rfl, rfl⟩

/-- Two objects with the same attributes and create time have one id if the rest is the same. -/
theorem calcId_eq_iff (hattrs : r.attrs = o.attrs) (htime : r.createTime = o.createTime) :
    (∀ digest : List UInt8 → List UInt8, r.calcId digest = o.calcId digest) ↔
      (payloadFields r).flatten = (payloadFields o).flatten := by
  have hinput : r.idInput = o.idInput ↔
      (payloadFields r).flatten = (payloadFields o).flatten := by
    unfold DataObject.idInput
    rw [idFields_eq, idFields_eq, hattrs, htime]
    simp only [List.flatten_append, List.append_cancel_left_eq]
  rw [← hinput]
  constructor
  · intro h
    exact h (fun input => input)
  · intro h digest
    unfold DataObject.calcId
    rw [h]

/-- The object before the attributes are copied. -/
structure Started (sha1 : Digest) (file : List Symbol) (d : DataObject) : Prop where
  unsigned : Unsigned d
  attrs : d.attrs = []
  verifiable : d.dataIsVerifiable = true
  payload : payloadFields d = [(sha1 (fileBytes file)).1]

/-- What comes back is what was copied, with the signature if there is one. -/
theorem reconstruct_cases (h : reconstruct sha1 env info path file block = some (some r)) :
    ∃ d c signed, Started sha1 file d ∧ copyLoop ⟨d, [], []⟩ block.attrs = some (some c) ∧
      CopiedFrom ⟨d, [], []⟩ c block.attrs ∧ copySignature c = some signed ∧
      r = restoreEncryptedDataObject signed := by
  unfold reconstruct at h
  split at h
  · cases h
  · next d hcreate =>
      obtain ⟨hunsigned, hattrs, hverifiable, bytes, hbytes, hpayload⟩ := create_spec hcreate
      have hfile : bytes = fileBytes file := by
        split at hbytes
        · exact (Option.some.inj hbytes).symm
        · cases hbytes
      obtain ⟨copied, hcopy, hr⟩ := Option.map_eq_some_iff.mp h
      unfold copyAttributesToDataObject at hcopy
      obtain ⟨c?, hloop, hsig⟩ := Option.map_eq_some_iff.mp hcopy
      obtain ⟨signed, hsigned, hr⟩ := Option.map_eq_some_iff.mp hr
      rw [hsigned] at hsig
      obtain ⟨c, hc, hsig⟩ := Option.bind_eq_some_iff.mp hsig
      rw [hc] at hloop
      have hstart : Unsigned { d with persistent := true } :=
        ⟨hunsigned.ordered, hunsigned.missing, hunsigned.signee, hunsigned.signature⟩
      refine ⟨{ d with persistent := true }, c, signed, ⟨hstart, hattrs, hverifiable, ?_⟩, hloop,
        copiedFrom_copyLoop hstart hloop, hsig, hr.symm⟩
      rw [← hfile]
      exact hpayload

/-- A signature that was copied: its texts are there, and it is as it was. -/
theorem copySignature_spec {signed : DataObject} (h : copySignature c = some signed) :
    signed.attrs = c.object.attrs ∧ signed.createTime = c.object.createTime ∧
      signed.dataIsVerifiable = c.object.dataIsVerifiable ∧
      payloadFields signed = payloadFields c.object := by
  unfold copySignature at h
  split at h
  · rw [← Option.some.inj h]
    exact ⟨rfl, rfl, rfl, rfl⟩
  · obtain ⟨signature, _, hsigned⟩ := Option.map_eq_some_iff.mp h
    rw [← hsigned]
    exact ⟨rfl, rfl, rfl, rfl⟩

theorem encode_ne_nil {s : List UInt8} (h : s ≠ []) : (Codec.encode s).length ≠ 0 := by
  have hpos := List.length_pos_iff.mpr h
  rw [Codec.length_encode]
  omega

/-- The texts of the signature, as they are found in a block of the object. -/
theorem signature_texts (hcarries : Carries o attrs) (hcopied : CopiedFrom ⟨d, [], []⟩ c attrs) :
    (o.signature = none ∧ c.parentSignature = []) ∨
      ∃ s, o.signature = some s ∧ s ≠ [] ∧ c.parentSignature = Codec.encode s ∧
        c.parentSignee = o.signee := by
  cases hsig : o.signature with
  | none =>
      refine Or.inl ⟨rfl, hcopied.signature.eq_old (fun a ha hname => ?_)⟩
      obtain ⟨s, hs, _⟩ := hcarries.signature a ha hname
      rw [hsig] at hs
      cases hs
  | some s =>
      obtain ⟨hne, hin, hin'⟩ := hcarries.signed s hsig
      have htext := hcopied.signature.eq_new hin (v := some (Codec.encode s)) (fun a ha hname => by
        obtain ⟨s', hs', hvalue⟩ := hcarries.signature a ha hname
        rw [hsig, Option.some.injEq] at hs'
        rw [textOf, hvalue, hs'])
      have hsignee := hcopied.signee.eq_new hin' (v := some o.signee) (fun a ha hname => by
        rw [textOf, (hcarries.signee a ha hname).2])
      exact Or.inr ⟨s, rfl, hne, (Option.some.inj htext).symm, (Option.some.inj hsignee).symm⟩

/-- Signee and signature come back exactly if there are both or none. -/
theorem signature_iff {signed : DataObject} (hcarries : Carries o attrs)
    (hcopied : CopiedFrom ⟨d, [], []⟩ c attrs) (h : copySignature c = some signed) :
    signed.signee = o.signee ∧ signed.signature = o.signature ↔
      (o.signature.isSome = true ↔ o.signee ≠ []) := by
  have hunsigned := hcopied.unsigned
  unfold copySignature at h
  rcases signature_texts hcarries hcopied with ⟨hnone, htext⟩ | ⟨s, hs, hne, htext, hsignee⟩
  · rw [htext, if_pos (Or.inr List.length_nil), Option.some.injEq] at h
    rw [← h, hunsigned.signee, hunsigned.signature, hnone]
    constructor
    · intro heq
      exact ⟨fun hcon => (by cases hcon), fun hcon => absurd heq.1.symm hcon⟩
    · intro hiff
      refine ⟨?_, rfl⟩
      by_contra hcon
      exact absurd (hiff.mpr (Ne.symm hcon)) Bool.false_ne_true
  · rw [hs]
    by_cases hempty : o.signee = []
    · rw [hsignee, if_pos (Or.inl (by rw [hempty]; rfl)), Option.some.injEq] at h
      rw [← h, hunsigned.signee, hunsigned.signature, hempty]
      refine iff_of_false (fun hcon => by cases hcon.2) (fun hiff => hiff.mp rfl rfl)
    · rw [htext, hsignee, if_neg (not_or.mpr ⟨fun hcon => hempty (List.length_eq_zero_iff.mp hcon),
        encode_ne_nil hne⟩), Codec.decode_encode, Option.map_some, Option.some.injEq] at h
      rw [← h]
      exact iff_of_true ⟨rfl, rfl⟩ ⟨fun _ => hempty, fun _ => rfl⟩

/-- **What comes back from a block of the object is the object, exactly if it is lasting.** -/
theorem sameIdentity_iff (ho : Original o) (hcarries : Carries o block.attrs)
    (h : reconstruct sha1 env info path file block = some (some r)) :
    SameIdentity r o ↔ Lasting sha1 file o := by
  obtain ⟨d, c, signed, hstarted, hloop, hcopied, hsig, rfl⟩ := reconstruct_cases h
  obtain ⟨hattrs, htime, hverifiable, hpayload⟩ := copySignature_spec hsig
  have hverified : signed.dataIsVerifiable = true := by
    rw [hverifiable, hcopied.verifiable]
    exact hstarted.verifiable
  obtain ⟨hattrs', htime', hsignee', hsignature', hpayload'⟩ :=
    restoreEncryptedDataObject_spec hverified
  -- all attributes of the block but its own are the object's
  have hown : (restoreEncryptedDataObject signed).attrs = o.attrs := by
    rw [hattrs', hattrs]
    refine Ordered.eq_of_mem hcopied.unsigned.ordered ho.ordered (fun a => ?_)
    rw [hcopied.mem, hstarted.attrs, hcarries.own, or_iff_left List.not_mem_nil]
  have hread : Timeval.ofString o.createTime.getAsString = some c.object.createTime :=
    hcopied.time.eq_new hcarries.stamped (fun a ha hname => by
      rw [timeOf, hcarries.time a ha hname])
  have hfile : (payloadFields (restoreEncryptedDataObject signed)).flatten =
      (sha1 (fileBytes file)).1 := by
    rw [hpayload', hpayload, hcopied.payload, hstarted.payload, List.flatten_singleton]
  have hboth := signature_iff hcarries hcopied hsig
  constructor
  · intro hsame
    have hkept : c.object.createTime = o.createTime := by
      rw [← htime, ← htime']
      exact hsame.createTime
    refine ⟨?_, hboth.mp ⟨?_, ?_⟩, ?_⟩
    · rw [hkept] at hread
      exact (ofString_getAsString_iff _).mp hread
    · rw [← hsignee']
      exact hsame.signee
    · rw [← hsignature']
      exact hsame.signature
    · rw [← hfile]
      exact ((calcId_eq_iff hsame.attrs hsame.createTime).mp hsame.id).symm
  · intro hlasting
    have hkept : c.object.createTime = o.createTime := by
      rw [(ofString_getAsString_iff _).mpr hlasting.time] at hread
      exact (Option.some.inj hread).symm
    obtain ⟨hsignee, hsignature⟩ := hboth.mpr hlasting.signed
    have htimes : (restoreEncryptedDataObject signed).createTime = o.createTime := by
      rw [htime', htime, hkept]
    refine ⟨hown, htimes, hsignee'.trans hsignee, hsignature'.trans hsignature,
      (calcId_eq_iff hown htimes).mpr ?_⟩
    rw [hfile]
    exact hlasting.payload.symm

/-- An object whose create time is kept does come back. -/
theorem reconstruct_returns (hcarries : Carries o block.attrs) (hpath : path ≠ [])
    (hopens : env.decodedFileOpens = true) (htime : o.createTime.Kept) :
    ∃ r, reconstruct sha1 env info path file block = some (some r) := by
  obtain ⟨d, hcreate⟩ : ∃ d, create sha1 path info.originalFileName
      (if env.decodedFileOpens then some (fileBytes file) else none) env.now = some d := by
    unfold create
    rw [if_neg (fun hnil => hpath (List.length_eq_zero_iff.mp hnil)), hopens]
    exact ⟨_, rfl⟩
  obtain ⟨hunsigned, hattrs, -⟩ := create_spec hcreate
  have hstart : Unsigned { d with persistent := true } :=
    ⟨hunsigned.ordered, hunsigned.missing, hunsigned.signee, hunsigned.signature⟩
  obtain ⟨c, hloop⟩ : ∃ c, copyLoop ⟨{ d with persistent := true }, [], []⟩ block.attrs =
      some (some c) := by
    refine copyLoop_isSome hstart (hcarries.ordered.imp (fun hab => hab.2)) (fun a _ b hb => ?_)
      (fun a ha hname => ?_)
    · dsimp only at hb
      rw [hattrs] at hb
      exact absurd hb List.not_mem_nil
    · unfold timeOf
      rw [hcarries.time a ha hname, (ofString_getAsString_iff _).mpr htime]
      rfl
  -- a signature was encoded when the block was made, so it can be decoded
  obtain ⟨signed, hsigned⟩ : ∃ signed, copySignature c = some signed := by
    unfold copySignature
    split
    · exact ⟨_, rfl⟩
    · next hboth =>
        rcases signature_texts hcarries (copiedFrom_copyLoop hstart hloop) with
          ⟨_, htext⟩ | ⟨s, _, _, htext, _⟩
        · exact absurd (Or.inr (by rw [htext]; rfl)) hboth
        · rw [htext, Codec.decode_encode]
          exact ⟨_, rfl⟩
  refine ⟨restoreEncryptedDataObject signed, ?_⟩
  unfold reconstruct copyAttributesToDataObject
  rw [hcreate]
  dsimp only
  rw [hloop, Option.map_some, Option.bind_some, hsigned]
  rfl

/-- **A block of a fragment brings back more than the object had.** -/
theorem not_sameIdentity_of_fragment (ho : Original o)
    (hmem : ⟨attrFragmentationName, lit "TRUE", 0⟩ ∈ block.attrs)
    (h : reconstruct sha1 env info path file block = some (some r)) : ¬ SameIdentity r o := by
  intro hsame
  obtain ⟨d, c, signed, -, -, hcopied, hsig, rfl⟩ := reconstruct_cases h
  obtain ⟨hattrs, -⟩ := copySignature_spec hsig
  have hrestored : (restoreEncryptedDataObject signed).attrs = signed.attrs := by
    unfold restoreEncryptedDataObject
    split
    · split <;> rfl
    · rfl
  have hin : ⟨attrFragmentationName, lit "TRUE", 0⟩ ∈ o.attrs := by
    rw [← hsame.attrs, hrestored, hattrs]
    exact (hcopied.mem _).mpr (Or.inl ⟨hmem, by decide⟩)
  exact absurd (show attrFragmentationName ∈ fragmentationNames from List.mem_cons_self)
    (ho.plain _ hin).2

/-! ## Whichever block arrives last -/

/-- What a block was made from. -/
inductive BlockKind where
  | whole
  | fragment
deriving DecidableEq

/-- The blocks of an object: made from the object, or from a fragment of it as it arrived. -/
inductive BlockOf (sha1 : Digest) (o : DataObject) : BlockKind → DataObject → Prop where
  | whole (written : Written) (block : DataObject)
      (h : NetworkCodingEncoderService.encodeDataObject sha1 written o = some block) :
      BlockOf sha1 o .whole block
  | fragment (written written' : Written) (csv : CString) (sent arrived block : DataObject)
      (hsent : FragmentationEncoderService.encodeDataObject sha1 written csv o = some sent)
      (hsame : arrived.attrs = sent.attrs)
      (h : NetworkCodingEncoderService.encodeFragment sha1 written' arrived = some block) :
      BlockOf sha1 o .fragment block

theorem decodeDataObject_decoded {cfg : DecoderConfiguration} {s s' : NetworkCodingDecoderStorage}
    {dObj : DataObject} (h : receiveBlock cfg sha1 s env dObj = some (.decoded s' info path file)) :
    decodeDataObject cfg sha1 s env dObj = some (s', some r) ↔
      reconstruct sha1 env info path file dObj = some (some r) := by
  unfold decodeDataObject
  rw [h]
  dsimp only
  constructor
  · intro hmap
    obtain ⟨returned, hreturned, heq⟩ := Option.map_eq_some_iff.mp hmap
    rw [hreturned, (Prod.mk.inj heq).2]
  · intro hreturned
    rw [hreturned]
    rfl

/--
**Reconstruction keeps what an object is, exactly if the block that arrives last was made from
the object itself**, and the object is one that lasts. Whatever happened to the storage before:
when the decoder has decoded the file, the object that is returned has the attributes, create
time, signee, signature and id of the one it was.
-/
theorem reconstruction_keeps_identity_iff (cfg : DecoderConfiguration) (sha1 : Digest)
    {o : DataObject} (ho : Original o) {kind : BlockKind} {block : DataObject}
    (hblock : BlockOf sha1 o kind block) {es : List DecoderEvent}
    {s s' : NetworkCodingDecoderStorage}
    (hrun : run (handled cfg sha1) NetworkCodingDecoderStorage.empty es = some s)
    {env : DecoderSurroundings} {info : BlockInfo} {path : CString} {file : List Symbol}
    (hdone : receiveBlock cfg sha1 s env block = some (.decoded s' info path file))
    (hopens : env.decodedFileOpens = true) :
    (∃ r, decodeDataObject cfg sha1 s env block = some (s', some r) ∧ SameIdentity r o) ↔
      kind = .whole ∧ Lasting sha1 file o := by
  have hpaths : PathsSet s := by
    refine run_keeps es _ s (fun t e _ t' ht hstep => ht.handled hstep) ?_ hrun
    intro id d hd
    cases hd
  have hpath : path ≠ [] := (hpaths.receiveBlock hdone).2
  constructor
  · intro hex
    obtain ⟨r, hr, hsame⟩ := hex
    have hreturned := (decodeDataObject_decoded hdone).mp hr
    cases hblock with
    | whole written block h =>
        exact ⟨rfl, (sameIdentity_iff ho (carries_block ho h) hreturned).mp hsame⟩
    | fragment written written' csv sent arrived block hsent hsame' h =>
        refine absurd hsame (not_sameIdentity_of_fragment ho (mem_block_of_fragment h ?_) hreturned)
        rw [hsame']
        exact mem_fragment hsent
  · intro hkeeps
    obtain ⟨rfl, hlasting⟩ := hkeeps
    cases hblock with
    | whole written block h =>
        have hcarries := carries_block ho h
        obtain ⟨r, hr⟩ := reconstruct_returns hcarries hpath hopens hlasting.time
        exact ⟨r, (decodeDataObject_decoded hdone).mpr hr,
          (sameIdentity_iff ho hcarries hr).mpr hlasting⟩

/-! ### One byte -/

/-- A hash function without collisions to speak of: everything collides. -/
def flatHash : Digest := fun _ => zeroHash

/-- A signed object with a file of one byte and two attributes. -/
def byteObject : DataObject :=
  { DataObject.fresh (Metadata.leaf []) with
    attrs := [⟨lit "k", lit "v", 1⟩, ⟨lit "k", lit "w", 2⟩]
    signee := lit "n"
    signature := some [1, 2, 3]
    createTime := firstSecond
    filename := lit "a"
    filepath := lit "/a"
    dataLen := 1
    origDataLen := 1
    dataState := .verifiedOk }

theorem byteObject_original : Original byteObject := by
  constructor
  · exact List.pairwise_pair.mpr ⟨Or.inr ⟨rfl, by decide +kernel⟩, by decide +kernel⟩
  · decide +kernel

theorem byteObject_lasting (file : List Symbol) : Lasting flatHash file byteObject := by
  refine ⟨⟨rfl, Or.inl (by decide)⟩, ?_, rfl⟩
  exact iff_of_true rfl (by decide)

/-- Blocks of one byte, one in a file. -/
def byteConfiguration : DecoderConfiguration := ⟨1, 1⟩

/-- The only block of the byte 7: a coefficient and the byte. -/
def byteSurroundings : DecoderSurroundings where
  isDuplicate := false
  now := firstSecond
  timeStamp := lit "t"
  storagePath := lit "s"
  blockFile := some [Symbol.ofNat 1, Symbol.ofNat 7]
  draws := fun _ => []
  decodedFileOpens := true

def byteWritten : Written := ⟨lit "b", [1, 7], firstSecond⟩

def Received.isDecoded : Received → Bool
  | .decoded _ _ _ _ => true
  | _ => false

theorem exists_decoded {r : Option Received} (h : r.any Received.isDecoded = true) :
    ∃ s info path file, r = some (.decoded s info path file) := by
  cases r with
  | none => cases h
  | some r =>
      cases r with
      | ignored s => cases h
      | stored s => cases h
      | decoded s info path file => exact ⟨s, info, path, file, rfl⟩

theorem byteBlock_isSome :
    (NetworkCodingEncoderService.encodeDataObject flatHash byteWritten byteObject).isSome = true := by
  decide +kernel

/-- The block of the byte, made from the object itself. -/
def byteBlock : DataObject :=
  (NetworkCodingEncoderService.encodeDataObject flatHash byteWritten byteObject).get
    byteBlock_isSome

theorem byteBlock_of : BlockOf flatHash byteObject .whole byteBlock :=
  .whole byteWritten byteBlock (Option.some_get byteBlock_isSome).symm

theorem byteBlock_comes_back : ∃ s' info path file r,
    receiveBlock byteConfiguration flatHash NetworkCodingDecoderStorage.empty byteSurroundings
      byteBlock = some (.decoded s' info path file) ∧
    decodeDataObject byteConfiguration flatHash NetworkCodingDecoderStorage.empty byteSurroundings
      byteBlock = some (s', some r) ∧ SameIdentity r byteObject := by
  obtain ⟨s', info, path, file, hdone⟩ := exists_decoded (r := receiveBlock byteConfiguration
    flatHash NetworkCodingDecoderStorage.empty byteSurroundings byteBlock) (by decide +kernel)
  have hempty : run (handled byteConfiguration flatHash) NetworkCodingDecoderStorage.empty [] =
      some NetworkCodingDecoderStorage.empty := rfl
  obtain ⟨r, hr⟩ := (reconstruction_keeps_identity_iff byteConfiguration flatHash
    byteObject_original byteBlock_of hempty hdone rfl).mpr ⟨rfl, byteObject_lasting file⟩
  exact ⟨s', info, path, file, r, hdone, hr⟩

/-- The fragment that holds the byte. -/
def byteFragment : Option DataObject :=
  FragmentationEncoderService.encodeDataObject flatHash ⟨lit "f", [7], firstSecond⟩ (lit "0")
    byteObject

theorem fragmentBlock_isSome : (byteFragment.bind
    (NetworkCodingEncoderService.encodeFragment flatHash byteWritten)).isSome = true := by
  decide +kernel

/-- The block of the byte, made from a fragment of the object. -/
def fragmentBlock : DataObject :=
  (byteFragment.bind (NetworkCodingEncoderService.encodeFragment flatHash byteWritten)).get
    fragmentBlock_isSome

theorem fragmentBlock_of : ∃ fragment,
    FragmentationEncoderService.encodeDataObject flatHash ⟨lit "f", [7], firstSecond⟩ (lit "0")
      byteObject = some fragment ∧
    NetworkCodingEncoderService.encodeFragment flatHash byteWritten fragment =
      some fragmentBlock :=
  Option.bind_eq_some_iff.mp (Option.some_get fragmentBlock_isSome).symm

/-- The same byte in a block that was made from a fragment: the fragment's marks stay. -/
theorem fragment_block_changes_identity :
    ¬ ∀ (cfg : DecoderConfiguration) (sha1 : Digest) (o : DataObject) (kind : BlockKind)
      (block : DataObject) (es : List DecoderEvent) (s s' : NetworkCodingDecoderStorage)
      (env : DecoderSurroundings) (info : BlockInfo) (path : CString) (file : List Symbol),
      Original o → BlockOf sha1 o kind block →
      run (handled cfg sha1) NetworkCodingDecoderStorage.empty es = some s →
      receiveBlock cfg sha1 s env block = some (.decoded s' info path file) →
      env.decodedFileOpens = true → Lasting sha1 file o →
      ∃ r, decodeDataObject cfg sha1 s env block = some (s', some r) ∧ SameIdentity r o := by
  intro hall
  obtain ⟨fragment, hsent, hblock⟩ := fragmentBlock_of
  obtain ⟨s', info, path, file, hdone⟩ := exists_decoded (r := receiveBlock byteConfiguration
    flatHash NetworkCodingDecoderStorage.empty byteSurroundings fragmentBlock) (by decide +kernel)
  obtain ⟨r, hr, hsame⟩ := hall byteConfiguration flatHash byteObject .fragment fragmentBlock []
    _ s' byteSurroundings info path file byteObject_original
    (.fragment _ byteWritten _ fragment fragment fragmentBlock hsent rfl hblock) rfl hdone rfl
    (byteObject_lasting file)
  exact not_sameIdentity_of_fragment byteObject_original
    (mem_block_of_fragment hblock (mem_fragment hsent)) ((decodeDataObject_decoded hdone).mp hr)
    hsame

end Encoders.Coding
