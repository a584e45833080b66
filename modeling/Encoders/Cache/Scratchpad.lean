import Encoders.Container.HashMap
import Encoders.Data.Object
import Mathlib.Data.List.Nodup
import Mathlib.Data.Rat.Defs

/-!
# The scratchpad

`Scratchpad.h` and `ScratchpadManager.cpp`: notes that a node keeps about data objects, by the id
of the object and a name. There is one pad for strings and one for numbers, and a name is in at
most one of them once it is set.

An object has no two notes of one name. What a pad says is `lookup`, and every operation is
described by what it does to that.
-/

namespace Encoders.Cache

open Encoders.Lib Encoders.Container

variable {T : Type}
variable {attrs : List (CString × T)} {m : HashMap CString (List (CString × T))}

/-- The loop of `setScratchpadAttribute`. -/
def setAttr (name : CString) (value : T) : List (CString × T) → List (CString × T)
  | [] => [(name, value)]
  | attr :: attrs =>
      if attr.1 = name then (attr.1, value) :: attrs else attr :: setAttr name value attrs

/-- The first note of a name. -/
def findAttr (name : CString) (attrs : List (CString × T)) : Option T :=
  (attrs.find? (fun attr => attr.1 = name)).map Prod.snd

/-- The loop of `removeScratchpadAttribute`. -/
def removeAttr (name : CString) (attrs : List (CString × T)) : List (CString × T) :=
  attrs.eraseP (fun attr => attr.1 = name)

theorem keys_setAttr (name : CString) (value : T) :
    ∀ attrs : List (CString × T), (setAttr name value attrs).map Prod.fst =
      if name ∈ attrs.map Prod.fst then attrs.map Prod.fst else attrs.map Prod.fst ++ [name]
  | [] => rfl
  | attr :: attrs => by
      unfold setAttr
      by_cases hname : attr.1 = name
      · rw [if_pos hname, if_pos (List.mem_map.mpr ⟨attr, List.mem_cons_self, hname⟩)]
        rfl
      · rw [if_neg hname, List.map_cons, keys_setAttr name value attrs, List.map_cons]
        by_cases hmem : name ∈ attrs.map Prod.fst
        · rw [if_pos hmem, if_pos (List.mem_cons_of_mem _ hmem)]
        · rw [if_neg hmem, if_neg, List.cons_append]
          exact fun h => (List.mem_cons.mp h).elim (fun heq => hname heq.symm) hmem

theorem nodup_setAttr {name : CString} {value : T} (h : (attrs.map Prod.fst).Nodup) :
    ((setAttr name value attrs).map Prod.fst).Nodup := by
  rw [keys_setAttr]
  split
  · exact h
  · rename_i hmem
    refine List.nodup_append.mpr ⟨h, List.nodup_singleton name, fun a ha b hb heq => ?_⟩
    rw [List.mem_singleton.mp hb] at heq
    exact hmem (heq ▸ ha)

theorem findAttr_setAttr (name : CString) (value : T) (name' : CString) :
    ∀ attrs : List (CString × T), findAttr name' (setAttr name value attrs) =
      if name' = name then some value else findAttr name' attrs
  | [] => by
      unfold findAttr setAttr
      by_cases h : name' = name
      · simp [h]
      · simp [h, Ne.symm h]
  | attr :: attrs => by
      have ih := findAttr_setAttr name value name' attrs
      unfold findAttr at ih ⊢
      unfold setAttr
      by_cases hname : attr.1 = name
      · by_cases h : name' = name
        · simp [hname, h]
        · simp [hname, h, Ne.symm h]
      · rw [if_neg hname]
        by_cases hattr : attr.1 = name'
        · have h : name' ≠ name := fun h => hname (hattr.trans h)
          simp [hattr, h]
        · rw [List.find?_cons_of_neg (by simpa using hattr), ih,
            List.find?_cons_of_neg (by simpa using hattr)]

theorem findAttr_eq_none {name : CString} :
    findAttr name attrs = none ↔ name ∉ attrs.map Prod.fst := by
  unfold findAttr
  rw [Option.map_eq_none_iff, List.find?_eq_none, List.mem_map]
  constructor
  · rintro h ⟨attr, hattr, hname⟩
    exact h attr hattr (decide_eq_true hname)
  · intro h attr hattr hname
    exact h ⟨attr, hattr, of_decide_eq_true hname⟩

theorem findAttr_removeAttr (name name' : CString) :
    ∀ {attrs : List (CString × T)}, (attrs.map Prod.fst).Nodup →
      findAttr name' (removeAttr name attrs) =
        if name' = name then none else findAttr name' attrs
  | [], _ => by
      unfold findAttr removeAttr
      split <;> rfl
  | attr :: attrs, h => by
      rw [List.map_cons, List.nodup_cons] at h
      have ih := findAttr_removeAttr name name' h.2
      by_cases hname : attr.1 = name
      · have hrest : removeAttr name (attr :: attrs) = attrs :=
          List.eraseP_cons_of_pos (by simpa using hname)
        rw [hrest]
        by_cases h' : name' = name
        · rw [if_pos h', h', findAttr_eq_none, ← hname]
          exact h.1
        · rw [if_neg h']
          unfold findAttr
          rw [List.find?_cons_of_neg (by simpa [hname] using Ne.symm h')]
      · have hrest : removeAttr name (attr :: attrs) = attr :: removeAttr name attrs :=
          List.eraseP_cons_of_neg (by simpa using hname)
        rw [hrest]
        by_cases hattr : attr.1 = name'
        · have h' : name' ≠ name := fun h' => hname (hattr.trans h')
          rw [if_neg h']
          unfold findAttr
          rw [List.find?_cons_of_pos (by simpa using hattr),
            List.find?_cons_of_pos (by simpa using hattr)]
        · unfold findAttr at ih ⊢
          rw [List.find?_cons_of_neg (by simpa using hattr), ih,
            List.find?_cons_of_neg (by simpa using hattr)]

/-! ## One pad -/

/-- `class Scratchpad` -/
structure Scratchpad (T : Type) where
  scratchpad : HashMap CString (List (CString × T))
  distinct : ∀ id attrs, scratchpad.find id = some attrs → (attrs.map Prod.fst).Nodup

theorem find_update (id : CString) (f : List (CString × T) → List (CString × T)) (id' : CString) :
    (m.update id f).find id' = if id' = id then (m.find id).map f else m.find id' := by
  unfold HashMap.find
  rw [HashMap.values_update]
  split
  · cases m.values id <;> rfl
  · rfl

theorem find_insert_new {id : CString} (h : m.find id = none) (attrs : List (CString × T))
    (id' : CString) :
    (m.insert id attrs).find id' = if id' = id then some attrs else m.find id' := by
  have hnil : m.values id = [] := List.head?_eq_none_iff.mp h
  unfold HashMap.find
  rw [HashMap.values_insert, hnil]
  split <;> rfl

namespace Scratchpad

/-- What the pad says. -/
def lookup (p : Scratchpad T) (id name : CString) : Option T :=
  (p.scratchpad.find id).bind (findAttr name)

/-- `Scratchpad()` -/
def new : Scratchpad T where
  scratchpad := .empty
  distinct id attrs h := by
    have hnone : (HashMap.empty : HashMap CString (List (CString × T))).find id = none := by
      unfold HashMap.find HashMap.empty
      rw [HashMap.values_ofSize]
      rfl
    rw [hnone] at h
    cases h

/-- `setScratchpadAttribute` -/
def setScratchpadAttribute (p : Scratchpad T) (id name : CString) (value : T) : Scratchpad T where
  scratchpad :=
    if (p.scratchpad.find id).isNone then p.scratchpad.insert id [(name, value)]
    else p.scratchpad.update id (setAttr name value)
  distinct id' attrs h := by
    split at h
    · rename_i hnone
      rw [find_insert_new (Option.isNone_iff_eq_none.mp hnone)] at h
      split at h
      · rw [← Option.some.inj h]
        exact List.nodup_singleton name
      · exact p.distinct id' attrs h
    · rw [find_update] at h
      split at h
      · obtain ⟨old, hold, rfl⟩ := Option.map_eq_some_iff.mp h
        exact nodup_setAttr (p.distinct id old hold)
      · exact p.distinct id' attrs h

/-- `hasScratchpadAttribute` -/
def hasScratchpadAttribute (p : Scratchpad T) (id name : CString) : Bool :=
  match p.scratchpad.find id with
  | none => false
  | some attrs => attrs.any (fun attr => attr.1 = name)

/-- `getScratchpadAttribute`, with what `getDefaultValue` says. -/
def getScratchpadAttribute (p : Scratchpad T) (defaultValue : T) (id name : CString) : T :=
  match p.scratchpad.find id with
  | none => defaultValue
  | some attrs => (findAttr name attrs).getD defaultValue

/-- `removeScratchpadAttribute` -/
def removeScratchpadAttribute (p : Scratchpad T) (id name : CString) : Scratchpad T where
  scratchpad := p.scratchpad.update id (removeAttr name)
  distinct id' attrs h := by
    rw [find_update] at h
    split at h
    · obtain ⟨old, hold, rfl⟩ := Option.map_eq_some_iff.mp h
      exact (p.distinct id old hold).sublist (List.eraseP_sublist.map Prod.fst)
    · exact p.distinct id' attrs h

variable (p : Scratchpad T) (id name : CString)

theorem lookup_new : (new : Scratchpad T).lookup id name = none := by
  unfold lookup new HashMap.find HashMap.empty
  dsimp only
  rw [HashMap.values_ofSize]
  rfl

theorem has_eq_lookup : p.hasScratchpadAttribute id name = (p.lookup id name).isSome := by
  unfold hasScratchpadAttribute lookup
  cases p.scratchpad.find id with
  | none => rfl
  | some attrs =>
      rw [Option.bind_some, Bool.eq_iff_iff, List.any_eq_true, Option.isSome_iff_ne_none, ne_eq,
        findAttr_eq_none, not_not, List.mem_map]
      simp

theorem get_eq_lookup (defaultValue : T) :
    p.getScratchpadAttribute defaultValue id name = (p.lookup id name).getD defaultValue := by
  unfold getScratchpadAttribute lookup
  cases p.scratchpad.find id <;> rfl

/-- **Setting a note changes this note.** -/
theorem lookup_set (value : T) (id' name' : CString) :
    (p.setScratchpadAttribute id name value).lookup id' name' =
      if id' = id ∧ name' = name then some value else p.lookup id' name' := by
  unfold lookup setScratchpadAttribute
  dsimp only
  cases hold : p.scratchpad.find id with
  | none =>
      rw [Option.isNone_none, if_pos rfl, find_insert_new hold]
      by_cases hid : id' = id
      · rw [if_pos hid, hid, hold, Option.bind_some]
        have hset := findAttr_setAttr name value name' []
        simp only [true_and]
        exact hset
      · rw [if_neg hid, if_neg (fun h => hid h.1)]
  | some attrs =>
      rw [Option.isNone_some, if_neg Bool.false_ne_true, find_update, hold]
      by_cases hid : id' = id
      · rw [if_pos hid, hid, hold, Option.map_some, Option.bind_some, Option.bind_some,
          findAttr_setAttr]
        simp only [true_and]
      · rw [if_neg hid, if_neg (fun h => hid h.1)]

/-- **Removing a note removes this note.** -/
theorem lookup_remove (id' name' : CString) :
    (p.removeScratchpadAttribute id name).lookup id' name' =
      if id' = id ∧ name' = name then none else p.lookup id' name' := by
  unfold lookup removeScratchpadAttribute
  dsimp only
  rw [find_update]
  by_cases hid : id' = id
  · rw [if_pos hid, hid]
    cases hold : p.scratchpad.find id with
    | none => simp
    | some attrs =>
        rw [Option.map_some, Option.bind_some, Option.bind_some,
          findAttr_removeAttr name name' (p.distinct id attrs hold)]
        simp only [true_and]
  · rw [if_neg hid, if_neg (fun h => hid h.1)]

end Scratchpad

/-! ## Both pads -/

/-- `class ScratchpadManager`. A `double` is the number it stands for. -/
structure ScratchpadManager where
  scratchpadString : Scratchpad CString
  scratchpadDouble : Scratchpad ℚ

namespace ScratchpadManager

/-- `ScratchpadManager()` -/
def new : ScratchpadManager := ⟨.new, .new⟩

/-- `hasScratchpadAttributeDouble` -/
def hasScratchpadAttributeDouble (pad : ScratchpadManager) (id name : CString) : Bool :=
  pad.scratchpadDouble.hasScratchpadAttribute id name

/-- `getScratchpadAttributeDouble` -/
def getScratchpadAttributeDouble (pad : ScratchpadManager) (id name : CString) : ℚ :=
  pad.scratchpadDouble.getScratchpadAttribute 0 id name

/-- `setScratchpadAttributeDouble` -/
def setScratchpadAttributeDouble (pad : ScratchpadManager) (id name : CString) (value : ℚ) :
    ScratchpadManager where
  scratchpadString :=
    if pad.scratchpadString.hasScratchpadAttribute id name then
      pad.scratchpadString.removeScratchpadAttribute id name
    else pad.scratchpadString
  scratchpadDouble := pad.scratchpadDouble.setScratchpadAttribute id name value

/-- `removeScratchpadAttribute` -/
def removeScratchpadAttribute (pad : ScratchpadManager) (id name : CString) :
    ScratchpadManager where
  scratchpadString := pad.scratchpadString.removeScratchpadAttribute id name
  scratchpadDouble := pad.scratchpadDouble.removeScratchpadAttribute id name

/-- The number noted under a name. -/
def number (pad : ScratchpadManager) (id name : CString) : Option ℚ :=
  pad.scratchpadDouble.lookup id name

variable (pad : ScratchpadManager) (id name : CString)

@[simp] theorem number_new : new.number id name = none := Scratchpad.lookup_new id name

theorem has_eq_number : pad.hasScratchpadAttributeDouble id name = (pad.number id name).isSome :=
  pad.scratchpadDouble.has_eq_lookup id name

theorem get_eq_number :
    pad.getScratchpadAttributeDouble id name = (pad.number id name).getD 0 :=
  pad.scratchpadDouble.get_eq_lookup id name 0

theorem number_set (value : ℚ) (id' name' : CString) :
    (pad.setScratchpadAttributeDouble id name value).number id' name' =
      if id' = id ∧ name' = name then some value else pad.number id' name' :=
  pad.scratchpadDouble.lookup_set id name value id' name'

theorem number_remove (id' name' : CString) :
    (pad.removeScratchpadAttribute id name).number id' name' =
      if id' = id ∧ name' = name then none else pad.number id' name' :=
  pad.scratchpadDouble.lookup_remove id name id' name'

end ScratchpadManager

end Encoders.Cache
