import Encoders.Container.MultiMap
import Encoders.Data.Wire

/-!
# The attributes of a data object as an array

`Attributes` is a `BasicMap` from names to attributes, so an attribute is found by
bisection on its name and a walk over the attributes of that name. Here the functions of
the class are those of the array, and the lists that stand for attributes elsewhere in
this development are shown to be what the array holds.

The order in the array is what `calcId` hashes, so it must not depend on the order in
which attributes were added. It does not: the array is sorted by `operator<`, and a sorted
array is determined by what is in it.
-/

namespace Encoders.Data

open Encoders.Lib Encoders.Container DataObject

/-- `class Attributes` -/
abbrev Attributes := BasicMap CString Attribute

namespace Attributes

/-- The loop of `Attributes::find` and `Attributes::erase` over the range of the name. -/
def findAttribute (attrs : Attributes) (a : Attribute) : Option Pos := do
  let p ← attrs.equalRange a.name
  attrs.findBetween (fun b => a.eq b) (attrs.numberOfEntries + 1) p.1 p.2

/-- `Attributes::erase(a)`, with what it returns. -/
def eraseAttribute (attrs : Attributes) (a : Attribute) : Option (Attributes × Nat) := do
  let it ← findAttribute attrs a
  match it with
  | none => some (attrs, 0)
  | some i => (attrs.erase (some i)).map (fun attrs' => (attrs', 1))

/-- `Attributes::add` -/
def add (attrs : Attributes) (a : Attribute) : Option Attributes :=
  attrs.insertSorted Attribute.lt (a.name, a)

/-- What `DataObject::addAttribute` does to the attributes. -/
def addAttribute (attrs : Attributes) (a : Attribute) : Option Attributes := do
  let it ← findAttribute attrs a
  if it.isSome then some attrs else add attrs a

/--
What `DataObject::removeAttribute(name, value)` does to them, and what it returns. The name alone
becomes an attribute with an empty value: `Attributes::erase` hides that of the map.
-/
def removeAttribute (attrs : Attributes) (name value : CString) : Option (Attributes × Nat) :=
  if value = wildcard then eraseAttribute attrs ⟨name, [], 1⟩
  else eraseAttribute attrs ⟨name, value, 1⟩

end Attributes

variable {attrs : Attributes} {l : List (CString × Attribute)}

/-! ## Lists and arrays -/

/-- The entries of the array for a list of attributes. -/
def entries (l : List Attribute) : List (CString × Attribute) := l.map (fun a => (a.name, a))

theorem ascending_entries {l : List Attribute} (h : Ordered l) : Ascending (entries l) := by
  refine List.pairwise_map.mpr (h.imp (fun {a b} hab => ?_))
  rcases hab.1 with hlt | ⟨heq, _⟩
  · exact hlt.le
  · exact heq.le

theorem insertPast_entries (a : Attribute) : ∀ l : List Attribute,
    BasicMap.insertPast Attribute.lt (a.name, a) (entries l) = entries (add a l) := by
  intro l
  induction l with
  | nil => rfl
  | cons b bs ih =>
      rw [entries, List.map_cons, BasicMap.insertPast, Data.add]
      by_cases hpast : BasicMap.Passes Attribute.lt (a.name, a) (b.name, b)
      · have hpast' : b.name < a.name ∨ (b.name = a.name ∧ b.lt a = true) := hpast
        rw [if_pos hpast, if_pos hpast']
        exact congrArg ((b.name, b) :: ·) ih
      · have hpast' : ¬ (b.name < a.name ∨ (b.name = a.name ∧ b.lt a = true)) := hpast
        rw [if_neg hpast, if_neg hpast']
        rfl

/-- Attributes that are equal up to wildcards have one name. -/
theorem name_eq_of_eq {a b : Attribute} (h : a.eq b = true) : a.name = b.name := by
  unfold Attribute.eq at h
  exact of_decide_eq_true (Bool.and_eq_true_iff.mp h).1

/-- The loop over the range of the name finds an entry of that name, if the attribute of one is
equal to what is looked for. -/
theorem findAttribute_range (h : attrs.Holds l) (hs : Ascending l) (a : Attribute) :
    ∃ it, Attributes.findAttribute attrs a = some it ∧
      (it.isSome = true ↔ ∃ x ∈ l, x.1 = a.name ∧ a.eq x.2 = true) ∧
      ∀ j, it = some j → ∃ b, l[j]? = some (a.name, b) := by
  unfold Attributes.findAttribute BasicMap.equalRange
  rcases h.find_cases hs a.name with ⟨hfind, hnone⟩ | ⟨p, v, hfind, hp, hfirst⟩
  · -- both ends of the range are `end()`
    have hwalk : attrs.walkEqual a.name (attrs.numberOfEntries + 1) none = some none := rfl
    refine ⟨none, ?_, ?_, fun j hj => by cases hj⟩
    · simp only [hfind, Option.bind_eq_bind, Option.bind_some, hwalk]
      rfl
    · refine iff_of_false Bool.false_ne_true ?_
      rintro ⟨x, hx, hname, -⟩
      exact hnone x hx hname
  · have hlt := (List.getElem?_eq_some_iff.mp hp).1
    obtain ⟨high, hwalk, _, hlen, hin, hpast, hstop⟩ :=
      h.walkEqual a.name (attrs.numberOfEntries + 1) p hlt (by rw [h.count]; omega)
    have hbetween : p < high.getD l.length := by
      rcases Nat.lt_or_ge p (high.getD l.length) with hlt' | hge
      · exact hlt'
      · have heq : high.getD l.length = p := by omega
        exact absurd rfl (hstop (a.name, v) (by rw [heq]; exact hp))
    obtain ⟨it, hit, hiff, hrange⟩ := h.findBetween (fun b => a.eq b) hin
      (attrs.numberOfEntries + 1) p hbetween (by rw [h.count]; omega)
    refine ⟨it, ?_, ?_, ?_⟩
    · simp only [hfind, Option.bind_eq_bind, Option.bind_some, hwalk]
      exact hit
    · rw [hiff]
      constructor
      · intro hex
        obtain ⟨j, y, hj, hle, hlt', hy⟩ := hex
        exact ⟨y, List.mem_of_getElem? hj, hpast j y hj hle hlt', hy⟩
      · intro hex
        obtain ⟨x, hx, hname, hax⟩ := hex
        obtain ⟨j, hj⟩ := List.getElem?_of_mem hx
        refine ⟨j, x, hj, ?_, ?_, hax⟩
        · -- before the range there are smaller names only
          by_contra hlow
          exact absurd hname (ne_of_lt (hfirst j _ hj (by omega)))
        · -- and behind it greater ones
          by_contra hbehind
          have hjl := (List.getElem?_eq_some_iff.mp hj).1
          have hend : high.getD l.length < l.length := by omega
          have hy := List.getElem?_eq_getElem hend
          have hne := hstop _ hy
          have hge := ascending_get_le hs hp hy hbetween
          have hle : l[high.getD l.length].1 ≤ x.1 := by
            rcases Nat.lt_or_eq_of_le (Nat.not_lt.mp hbehind) with hlt' | heq
            · exact ascending_get_le hs hy hj hlt'
            · rw [← heq, hy] at hj
              rw [Option.some.inj hj]
          rw [hname] at hle
          exact hne (le_antisymm hle hge)
    · intro j hj
      obtain ⟨hle, hlt'⟩ := hrange j hj
      have hjl : j < l.length := by omega
      have hy := List.getElem?_eq_getElem hjl
      have hname : l[j].1 = a.name := hpast j _ hy hle hlt'
      exact ⟨l[j].2, by rw [hy, ← hname]⟩

/-- In a list it finds what a search of all attributes finds. -/
theorem findAttribute_spec {l : List Attribute} (h : attrs.Holds (entries l)) (hord : Ordered l)
    (a : Attribute) :
    ∃ it, Attributes.findAttribute attrs a = some it ∧ it.isSome = (find l a).isSome := by
  obtain ⟨it, hit, hiff, -⟩ := findAttribute_range h (ascending_entries hord) a
  refine ⟨it, hit, ?_⟩
  rw [Bool.eq_iff_iff, hiff, find_isSome]
  constructor
  · intro hex
    obtain ⟨x, hx, -, hax⟩ := hex
    obtain ⟨b, hb, rfl⟩ := List.mem_map.mp hx
    exact ⟨b, hb, hax⟩
  · intro hex
    obtain ⟨b, hb, hab⟩ := hex
    exact ⟨(b.name, b), List.mem_map_of_mem hb, (name_eq_of_eq hab).symm, hab⟩

/-- The attributes after one more was added, if there was none that is equal to it. -/
def addNew (l : List Attribute) (a : Attribute) : List Attribute :=
  if (find l a).isSome then l else add a l

/-- The array holds these attributes, in order, and has no spare slot. -/
structure Stores (attrs : Attributes) (l : List Attribute) : Prop where
  holds : attrs.Holds (entries l)
  ordered : Ordered l
  snug : attrs.Snug

theorem stores_empty : Stores (BasicMap.empty : Attributes) [] :=
  ⟨BasicMap.holds_empty, List.Pairwise.nil, le_refl _⟩

theorem ordered_addNew {l : List Attribute} (h : Ordered l) (a : Attribute) :
    Ordered (addNew l a) := by
  unfold addNew
  split
  · exact h
  · next hnew =>
      refine ordered_add h (fun b hb => Bool.eq_false_iff.mpr (fun heq => hnew ?_))
      exact find_isSome.mpr ⟨b, hb, heq⟩

/-- **Adding an attribute to the array is adding it to the list.** -/
theorem Stores.addAttribute {l : List Attribute} (h : Stores attrs l) (a : Attribute) :
    ∃ attrs', Attributes.addAttribute attrs a = some attrs' ∧ Stores attrs' (addNew l a) := by
  obtain ⟨it, hit, hfound⟩ := findAttribute_spec h.holds h.ordered a
  unfold Attributes.addAttribute addNew
  rw [hit, Option.bind_eq_bind, Option.bind_some, hfound]
  by_cases hnew : (find l a).isSome = true
  · rw [if_pos hnew, if_pos hnew]
    exact ⟨attrs, rfl, h⟩
  · obtain ⟨attrs', hadd, hholds, hsnug⟩ := @BasicMap.Holds.insertSorted CString Attribute _
      Attribute.lt attrs (entries l) h.holds (ascending_entries h.ordered) h.snug (a.name, a)
    rw [insertPast_entries] at hholds
    have hordered := ordered_addNew h.ordered a
    unfold addNew at hordered
    rw [if_neg hnew] at hordered ⊢
    rw [if_neg hnew]
    exact ⟨attrs', hadd, hholds, hordered, hsnug⟩

theorem Stores.run {attrs : Attributes} {l : List Attribute} (h : Stores attrs l) :
    ∀ as : List Attribute, ∃ attrs', Encoders.Lib.run Attributes.addAttribute attrs as =
      some attrs' ∧ Stores attrs' (as.foldl addNew l) := by
  intro as
  induction as generalizing attrs l with
  | nil => exact ⟨attrs, rfl, h⟩
  | cons a as ih =>
      obtain ⟨attrs₁, hadd, h₁⟩ := h.addAttribute a
      obtain ⟨attrs', hrun, h'⟩ := ih h₁
      exact ⟨attrs', by rw [Encoders.Lib.run, hadd, Option.bind_some, hrun], h'⟩

/-! ## Canonical order -/

theorem lt_of_before {a b : Attribute} (h : Before a b) : a.lt b = true := by
  unfold Attribute.lt
  rcases h.1 with hlt | ⟨heq, hlt⟩
  · rw [if_pos (ne_of_lt hlt)]
    exact decide_eq_true hlt
  · rw [if_neg (not_not.mpr heq), if_pos (ne_of_lt hlt)]
    exact decide_eq_true hlt

/-- The fields of the hash that are not attributes. -/
def otherFields (d : DataObject) : List (List UInt8) := timeFields d.createTime ++ payloadFields d

theorem removeSignature_fields (d : DataObject) :
    d.removeSignature.attrs = d.attrs ∧ otherFields d.removeSignature = otherFields d := by
  unfold removeSignature
  split
  · exact ⟨rfl, rfl⟩
  · exact ⟨rfl, rfl⟩

theorem addAttribute_fields (d : DataObject) (a : Attribute) :
    (d.addAttribute a).attrs = addNew d.attrs a ∧
      otherFields (d.addAttribute a) = otherFields d := by
  unfold DataObject.addAttribute addNew hasAttribute
  split
  · exact ⟨rfl, rfl⟩
  · exact removeSignature_fields _

/-- Adding attributes to an object changes its attributes only, as far as the id goes. -/
theorem addAttributes_fields (as : List Attribute) (d : DataObject) :
    (as.foldl DataObject.addAttribute d).attrs = as.foldl addNew d.attrs ∧
      otherFields (as.foldl DataObject.addAttribute d) = otherFields d := by
  induction as generalizing d with
  | nil => exact ⟨rfl, rfl⟩
  | cons a as ih =>
      obtain ⟨hattrs, hother⟩ := addAttribute_fields d a
      obtain ⟨hattrs', hother'⟩ := ih (d.addAttribute a)
      rw [List.foldl_cons, List.foldl_cons, ← hattrs]
      exact ⟨hattrs', hother'.trans hother⟩

/--
**The order of attributes is canonical.** Whatever attributes are added to two objects without
any, and in whatever order: the arrays are walked in the order of `operator<`, and if they have
the same attributes they are walked alike, and the objects have the same id.
-/
theorem canonical_order (as bs : List Attribute) :
    ∃ attrs attrs' l l',
      run Attributes.addAttribute BasicMap.empty as = some attrs ∧
      run Attributes.addAttribute BasicMap.empty bs = some attrs' ∧
      attrs.iterate = some (entries l) ∧ attrs'.iterate = some (entries l') ∧
      l.Pairwise (fun a b => a.lt b = true) ∧ l'.Pairwise (fun a b => a.lt b = true) ∧
      ((∀ a, a ∈ l ↔ a ∈ l') → l = l' ∧ ∀ (sha1 : List UInt8 → List UInt8) (d d' : DataObject),
        d.attrs = [] → d'.attrs = [] → otherFields d = otherFields d' →
          (as.foldl DataObject.addAttribute d).attrs = l ∧
          (as.foldl DataObject.addAttribute d).calcId sha1 =
            (bs.foldl DataObject.addAttribute d').calcId sha1) := by
  obtain ⟨attrs, hrun, h⟩ := stores_empty.run as
  obtain ⟨attrs', hrun', h'⟩ := stores_empty.run bs
  refine ⟨attrs, attrs', _, _, hrun, hrun', h.holds.iterate, h'.holds.iterate,
    h.ordered.imp lt_of_before, h'.ordered.imp lt_of_before, fun hsame => ?_⟩
  have heq := h.ordered.eq_of_mem h'.ordered hsame
  refine ⟨heq, fun sha1 d d' hd hd' hother => ?_⟩
  obtain ⟨hattrs, hfields⟩ := addAttributes_fields as d
  obtain ⟨hattrs', hfields'⟩ := addAttributes_fields bs d'
  rw [hd] at hattrs
  rw [hd'] at hattrs'
  refine ⟨hattrs, ?_⟩
  unfold calcId idInput
  rw [idFields_eq, idFields_eq, List.append_assoc, List.append_assoc, hattrs, hattrs', heq]
  exact congrArg (fun fields => sha1 (attrFields _ ++ fields).flatten)
    (hfields.trans (hother.trans hfields'.symm))

/-! ## Removing attributes by name -/

theorem countP_eraseIdx {α : Type} {l : List α} {j : Nat} {x : α} (hj : l[j]? = some x)
    {p : α → Bool} (hx : p x = true) : l.countP p = (l.eraseIdx j).countP p + 1 := by
  obtain ⟨hlt, rfl⟩ := List.getElem?_eq_some_iff.mp hj
  rw [← (List.getElem_cons_eraseIdx_perm hlt).countP_eq, List.countP_cons_of_pos hx]

/-- What the name alone is equal to. -/
theorem eq_name_iff {name : CString} {b : Attribute} : (⟨name, [], 1⟩ : Attribute).eq b = true ↔
    name = b.name ∧ (b.value = wildcard ∨ b.value = []) := by
  have hblank : ([] : CString) ≠ wildcard := by decide
  unfold Attribute.eq
  simp only [hblank, decide_false, Bool.false_or, Bool.and_eq_true, Bool.or_eq_true,
    decide_eq_true_eq]
  rw [@eq_comm _ ([] : CString)]

/-- `Attributes::erase` takes one entry of the name out, or none. -/
theorem eraseAttribute_cases (h : attrs.Holds l) (hs : Ascending l) (a : Attribute) :
    (Attributes.eraseAttribute attrs a = some (attrs, 0) ∧
      ∀ x ∈ l, x.1 = a.name → a.eq x.2 = false) ∨
    ∃ attrs' j b, Attributes.eraseAttribute attrs a = some (attrs', 1) ∧
      attrs'.Holds (l.eraseIdx j) ∧ l[j]? = some (a.name, b) ∧
      ∃ x ∈ l, x.1 = a.name ∧ a.eq x.2 = true := by
  obtain ⟨it, hit, hiff, hname⟩ := findAttribute_range h hs a
  unfold Attributes.eraseAttribute
  rw [hit]
  cases it with
  | none =>
      refine Or.inl ⟨rfl, fun x hx hxname => ?_⟩
      rw [← Bool.not_eq_true]
      exact fun hax => Bool.false_ne_true (hiff.mpr ⟨x, hx, hxname, hax⟩)
  | some j =>
      obtain ⟨b, hb⟩ := hname j rfl
      obtain ⟨attrs', herase, hl', -⟩ := h.erase (List.getElem?_eq_some_iff.mp hb).1
      refine Or.inr ⟨attrs', j, b, ?_, hl', hb, hiff.mp rfl⟩
      simp only [Option.bind_eq_bind, Option.bind_some, herase, Option.map_some]

/-- A wildcard removes all attributes of a name exactly if there is none, or one that the name
alone is equal to. -/
theorem removeAttribute_wildcard_iff (h : attrs.Holds l) (hs : Ascending l) (name : CString) :
    (∃ attrs' n l', Attributes.removeAttribute attrs name wildcard = some (attrs', n) ∧
      attrs'.Holds l' ∧ ∀ x ∈ l', x.1 ≠ name) ↔
      l.countP (fun x => x.1 = name) ≤ 1 ∧
        ∀ x ∈ l, x.1 = name → name = x.2.name ∧ (x.2.value = wildcard ∨ x.2.value = []) := by
  unfold Attributes.removeAttribute
  rw [if_pos rfl]
  simp only [← eq_name_iff]
  rcases eraseAttribute_cases h hs ⟨name, [], 1⟩ with ⟨hrun, hnone⟩ |
    ⟨attrs', j, b, hrun, hl', hb, x₀, hx₀, hname₀, hax₀⟩
  · -- nothing was removed: so there must have been nothing
    constructor
    · intro hremoved
      obtain ⟨attrs'', n, l'', hrun', hl'', hgone⟩ := hremoved
      obtain ⟨rfl, -⟩ := Prod.mk.inj (Option.some.inj (hrun.symm.trans hrun'))
      obtain rfl := h.unique hl''
      refine ⟨?_, fun x hx hname => absurd hname (hgone x hx)⟩
      rw [List.countP_eq_zero.mpr (fun x hx => by simpa using hgone x hx)]
      exact Nat.zero_le 1
    · rintro ⟨-, hall⟩
      refine ⟨attrs, 0, l, hrun, h, fun x hx hname => ?_⟩
      exact Bool.false_ne_true ((hnone x hx hname).symm.trans (hall x hx hname))
  · -- one entry was removed: so it must have been the only one
    have hcount := countP_eraseIdx hb (p := fun x => decide (x.1 = name)) (by simp)
    constructor
    · intro hremoved
      obtain ⟨attrs'', n, l'', hrun', hl'', hgone⟩ := hremoved
      obtain ⟨rfl, -⟩ := Prod.mk.inj (Option.some.inj (hrun.symm.trans hrun'))
      obtain rfl := hl'.unique hl''
      have honly : ∀ x ∈ l, x.1 = name → x = (name, b) := by
        intro x hx hname
        obtain ⟨hlt, hget⟩ := List.getElem?_eq_some_iff.mp hb
        have hperm := List.getElem_cons_eraseIdx_perm hlt
        rcases List.mem_cons.mp (hperm.mem_iff.mpr hx) with heq | hrest
        · rw [heq, hget]
        · exact absurd hname (hgone x hrest)
      refine ⟨?_, fun x hx hname => ?_⟩
      · rw [hcount, List.countP_eq_zero.mpr (fun x hx => by simpa using hgone x hx)]
      · rw [honly x hx hname, ← honly x₀ hx₀ hname₀]
        exact hax₀
    · rintro ⟨hone, -⟩
      refine ⟨attrs', 1, _, hrun, hl', fun x hx hname => ?_⟩
      have hpos : 0 < (l.eraseIdx j).countP (fun x => decide (x.1 = name)) :=
        List.countP_pos_iff.mpr ⟨x, hx, by simpa using hname⟩
      omega

/--
**`erase(k)` removes all entries of a key exactly if there is at most one.** What
`removeAttribute` makes of a wildcard removes all attributes of a name exactly if there is none,
or a single one whose value is empty or a wildcard itself.
-/
theorem erase_complete_iff {κ α : Type} [LinearOrder κ] {m : BasicMap κ α} {l : List (κ × α)}
    (hl : m.Holds l) (hs : Ascending l) (k : κ) {attrs : Attributes}
    {entries : List (CString × Attribute)} (hattrs : attrs.Holds entries)
    (hascending : Ascending entries) (name : CString) :
    ((∃ m', m.eraseCount k = some (m', l.countP (fun x => x.1 = k)) ∧
      m'.Holds (l.filter (fun x => x.1 ≠ k))) ↔ l.countP (fun x => x.1 = k) ≤ 1) ∧
    ((∃ attrs' n entries', Attributes.removeAttribute attrs name wildcard = some (attrs', n) ∧
      attrs'.Holds entries' ∧ ∀ x ∈ entries', x.1 ≠ name) ↔
        entries.countP (fun x => x.1 = name) ≤ 1 ∧
          ∀ x ∈ entries, x.1 = name →
            name = x.2.name ∧ (x.2.value = wildcard ∨ x.2.value = [])) :=
  ⟨hl.eraseCount_iff hs k, removeAttribute_wildcard_iff hattrs hascending name⟩

/-- An array with one entry, and one with two of a key. -/
def oneEntry {κ α : Type} (k : κ) (x : α) : BasicMap κ α := ⟨[some (k, x)], 1, 1⟩

def twoEntries : BasicMap Nat Nat := ⟨[some (0, 1), some (0, 2)], 2, 2⟩

theorem oneEntry_holds {κ α : Type} [LinearOrder κ] (k : κ) (x : α) :
    (oneEntry k x).Holds [(k, x)] := by
  refine ⟨rfl, fun j hj => ?_⟩
  have hj : j < 1 := hj
  obtain rfl : j = 0 := by omega
  rfl

theorem twoEntries_holds : twoEntries.Holds [(0, 1), (0, 2)] := by
  refine ⟨rfl, fun j hj => ?_⟩
  have hj : j < 2 := hj
  rcases Nat.lt_or_eq_of_le (Nat.lt_succ_iff.mp hj) with hlt | rfl
  · obtain rfl : j = 0 := by omega
    rfl
  · rfl

/-- Attributes of a name, one without a value. -/
def namedA (value : CString) : Attribute := ⟨lit "a", value, 1⟩

theorem erase_complete_one :
    (∃ m', (oneEntry 0 1).eraseCount 0 = some (m', 1) ∧ m'.Holds []) ∧
    ∃ attrs' n entries',
      Attributes.removeAttribute (oneEntry (lit "a") (namedA [])) (lit "a") wildcard =
        some (attrs', n) ∧ attrs'.Holds entries' ∧ ∀ x ∈ entries', x.1 ≠ lit "a" := by
  have hboth := erase_complete_iff (oneEntry_holds 0 1) (List.pairwise_singleton _ _) 0
    (oneEntry_holds (lit "a") (namedA [])) (List.pairwise_singleton _ _) (lit "a")
  exact ⟨hboth.1.mpr (by decide), hboth.2.mpr ⟨by decide, by decide⟩⟩

/-- Of two entries one stays, and yet two are counted; and an attribute with a value stays. -/
theorem erase_two_incomplete :
    (¬ ∀ (κ α : Type) (_ : LinearOrder κ) (m : BasicMap κ α) (l : List (κ × α)) (k : κ),
      m.Holds l → Ascending l → ∃ m', m.eraseCount k = some (m', l.countP (fun x => x.1 = k)) ∧
        m'.Holds (l.filter (fun x => x.1 ≠ k))) ∧
    ¬ ∃ attrs' n entries',
      Attributes.removeAttribute (oneEntry (lit "a") (namedA (lit "1"))) (lit "a") wildcard =
        some (attrs', n) ∧ attrs'.Holds entries' ∧ ∀ x ∈ entries', x.1 ≠ lit "a" := by
  constructor
  · intro hall
    have hs : Ascending [((0 : Nat), (1 : Nat)), (0, 2)] := by
      unfold Ascending
      decide
    obtain ⟨m', hrun, hl'⟩ := hall Nat Nat _ twoEntries [(0, 1), (0, 2)] 0 twoEntries_holds hs
    obtain ⟨l', hl, x, hx, hx0⟩ := twoEntries_holds.eraseCount_leaves hs (by decide) hrun
    rw [hl.unique hl'] at hx
    exact absurd hx0 (by simpa using (List.mem_filter.mp hx).2)
  · rw [removeAttribute_wildcard_iff (oneEntry_holds _ _) (List.pairwise_singleton _ _)]
    rintro ⟨-, hall⟩
    exact absurd (hall _ List.mem_cons_self rfl).2 (by decide)

end Encoders.Data
