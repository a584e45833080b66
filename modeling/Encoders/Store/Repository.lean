import Encoders.Lib.Run
import Encoders.Store.MemoryCache

/-!
# The repository of the memory cache

Managers save what they want to keep as repository entries: an authority, a key and a value of
one of two types. The memory cache has one table for them, by authority, and looks at key and type
itself.

It looks at the key with `getKey`, which gives a `const char*`. `insertRepository` compares two
of them with `!=`, and so compares where the characters stand and not what they are. Every entry
has its own string, so that the test lets through the same object only, and an entry saved again
comes to stand beside the old one. `deleteRepository` does not look at the key at all.
-/

namespace Encoders.Store

open Encoders.Lib Encoders.Container

/-- What an entry is saved under. -/
abbrev Triple := CString × CString × ValueType

/-- `(authority, key, type)` -/
def RepositoryEntry.triple (e : RepositoryEntry) : Triple := (e.authority, e.key, e.type)

namespace MemoryCache

variable {s : MemoryCache} {f : Keyed}
variable {re : RepositoryEntry}

/-- What is saved under an authority. -/
def saved (s : MemoryCache) (auth : CString) : List RepositoryEntry :=
  s.authorityToRepository.values auth

@[simp] theorem saved_new (b : Bool) (auth : CString) : (new b).saved auth = [] :=
  Table.values_empty auth

/-- The test of the loop of `insertRepository`. -/
def sameKeyAndType (re c_re : RepositoryEntry) : Bool :=
  c_re.getKey = re.getKey && c_re.type = re.type

theorem saved_insertRepository (s : MemoryCache) (re : RepositoryEntry) (auth : CString) :
    (s.insertRepository re).saved auth =
      if auth = re.authority then (s.saved auth).eraseP (sameKeyAndType re) ++ [re]
      else s.saved auth := by
  have hvalues : (s.insertRepository re).saved auth =
      ((s.authorityToRepository.eraseOne re.authority (sameKeyAndType re)).insert
        re.authority re).values auth := rfl
  rw [hvalues, Table.values_insert, Table.values_eraseOne, Table.values_eraseOne, if_pos rfl]
  by_cases h : auth = re.authority
  · rw [if_pos h, if_pos h, h]
    rfl
  · rw [if_neg h, if_neg h, if_neg h]
    rfl

@[simp] theorem saved_compact (s : MemoryCache) (auth : CString) :
    s.compact.saved auth = s.saved auth := by
  unfold compact saved
  split
  · exact Table.values_compact _ auth
  · rfl

/-- Whatever key it is called with, `deleteRepository` takes out all that is under the authority. -/
theorem saved_deleteRepository (s : MemoryCache) {a k : CString} (ha : a ≠ []) (hk : k ≠ [])
    (auth : CString) :
    (s.step (.deleteRepository a k 0)).saved auth = if auth = a then [] else s.saved auth := by
  rw [step, deleteRepository, if_neg ha, if_neg hk, if_neg (by decide), Option.getD_some,
    saved_compact]
  unfold saved
  dsimp only
  rw [Table.values_eraseAll]
  by_cases h : auth = a
  · rw [if_pos h, if_pos h]
    simp
  · rw [if_neg h, if_neg h]

/-! ## A keyed store -/

/-- The last entry saved under each triple and not deleted since. -/
abbrev Keyed := Triple → Option RepositoryEntry

/-- The calls that change the repository. -/
inductive RepositoryCall where
  | insertRepository (re : RepositoryEntry)
  | deleteRepository (auth key : CString)

/-- The call of the cache. -/
def RepositoryCall.op : RepositoryCall → Op
  | .insertRepository re => .insertRepository re
  | .deleteRepository auth key => .deleteRepository auth key 0

/-- What a call does to the cache. -/
def call (s : MemoryCache) (c : RepositoryCall) : MemoryCache := s.step c.op

/-- What a call does to a keyed store. -/
def Keyed.step (f : Keyed) : RepositoryCall → Keyed
  | .insertRepository re => Function.update f re.triple (some re)
  | .deleteRepository auth key => fun t => if t.1 = auth ∧ t.2.1 = key then none else f t

/-- The strings of a call are not empty, and an object that is saved has its key for itself. -/
def Keyed.Meant (f : Keyed) : RepositoryCall → Prop
  | .insertRepository re => re.authority ≠ [] ∧ re.key ≠ [] ∧
      ∀ t p, f t = some p → p.address = re.address → p = re
  | .deleteRepository auth key => auth ≠ [] ∧ key ≠ []

/--
The cache holds what the keyed store holds: at most one entry of each triple, and a lookup gives
the entries of the authority and the key, all of the authority if the key is empty.
-/
structure IsKeyed (s : MemoryCache) (f : Keyed) : Prop where
  once : ∀ a, (s.saved a).Pairwise (fun p q => p.triple ≠ q.triple)
  live : ∀ a p, p ∈ s.saved a ↔ p.authority = a ∧ f p.triple = some p
  reads : ∀ a k, a ≠ [] → ∃ l, s.readRepository a k 0 = some l ∧ l.Nodup ∧
    ∀ p, p ∈ l ↔ p.authority = a ∧ (k = [] ∨ p.key = k) ∧ f p.triple = some p

/-- What the cache holds is a keyed store of entries that have a key. -/
structure KeepsKeyed (s : MemoryCache) (f : Keyed) : Prop where
  keyed : IsKeyed s f
  keys : ∀ a, ∀ p ∈ s.saved a, p.key ≠ []

/-- Everything follows from which entries there are, as long as none is there twice. -/
theorem KeepsKeyed.of_live (hnodup : ∀ a, (s.saved a).Nodup)
    (hlive : ∀ a p, p ∈ s.saved a ↔ p.authority = a ∧ f p.triple = some p)
    (hkeys : ∀ a, ∀ p ∈ s.saved a, p.key ≠ []) : KeepsKeyed s f := by
  refine ⟨⟨fun a => ?_, hlive, fun a k ha => ?_⟩, hkeys⟩
  · refine (hnodup a).imp_of_mem (fun hp hq hne heq => hne ?_)
    have hp' := ((hlive a _).mp hp).2
    rw [heq, ((hlive a _).mp hq).2] at hp'
    exact (Option.some.inj hp').symm
  · rw [readRepository, if_neg ha, if_neg (by decide)]
    by_cases hk : k = []
    · rw [if_pos hk]
      refine ⟨s.saved a, rfl, hnodup a, fun p => (hlive a p).trans ?_⟩
      exact and_congr_right (fun _ => ⟨fun h => ⟨Or.inl hk, h⟩, fun h => h.2⟩)
    · have hnull : (s.authorityToRepository.values a).any (fun c => c.getKey = none) = false := by
        refine List.any_eq_false.mpr (fun c hc => ?_)
        rw [RepositoryEntry.getKey, if_neg (hkeys a c hc)]
        simp
      rw [if_neg hk, hnull, if_neg Bool.false_ne_true]
      refine ⟨_, rfl, (hnodup a).filter _, fun p => ?_⟩
      rw [List.mem_filter, decide_eq_true_iff]
      refine (and_congr_left' (hlive a p)).trans ?_
      constructor
      · rintro ⟨⟨hauth, hf⟩, hkey⟩
        exact ⟨hauth, Or.inr hkey, hf⟩
      · rintro ⟨hauth, hkey, hf⟩
        exact ⟨⟨hauth, hf⟩, hkey.resolve_left hk⟩

theorem IsKeyed.nodup (h : IsKeyed s f) (a : CString) : (s.saved a).Nodup :=
  (h.once a).imp (fun hne heq => hne (by rw [heq]))

theorem keepsKeyed_new (b : Bool) : KeepsKeyed (new b) (fun _ => none) := by
  refine KeepsKeyed.of_live (fun a => ?_) (fun a p => ?_) (fun a p hp => ?_)
  · rw [saved_new]
    exact List.nodup_nil
  · rw [saved_new]
    simp
  · rw [saved_new] at hp
    cases hp

/--
A call the cache is fit for. An entry is saved under a triple for the first time, or it is the
very object that is saved there; and an authority whose entries are deleted has no other key.
-/
def Fit (s : MemoryCache) : RepositoryCall → Prop
  | .insertRepository re => ∀ p ∈ s.saved re.authority, p.triple = re.triple → p = re
  | .deleteRepository auth key => ∀ p ∈ s.saved auth, p.key = key

instance (s : MemoryCache) : ∀ c, Decidable (Fit s c)
  | .insertRepository _ => inferInstanceAs (Decidable (∀ p ∈ _, _ → _))
  | .deleteRepository _ _ => inferInstanceAs (Decidable (∀ p ∈ _, _))

/-- The loop of `insertRepository` takes out the object, if it is there. -/
theorem eraseP_sameKeyAndType (h : KeepsKeyed s f) (hmeant : f.Meant (.insertRepository re)) :
    (s.saved re.authority).eraseP (sameKeyAndType re) = (s.saved re.authority).erase re := by
  have htest : ∀ c ∈ s.saved re.authority, sameKeyAndType re c = (c == re) := by
    intro c hc
    rw [Bool.eq_iff_iff, beq_iff_eq, sameKeyAndType, RepositoryEntry.getKey,
      RepositoryEntry.getKey, if_neg (h.keys _ c hc), if_neg hmeant.2.1]
    simp only [Option.some.injEq, Bool.and_eq_true, decide_eq_true_eq]
    constructor
    · rintro ⟨haddress, -⟩
      exact hmeant.2.2 _ c ((h.keyed.live _ c).mp hc).2 haddress
    · rintro rfl
      exact ⟨rfl, rfl⟩
  rw [List.erase_eq_eraseP']
  generalize s.saved re.authority = l at htest
  induction l with
  | nil => rfl
  | cons c l ih =>
    rw [List.eraseP_cons, List.eraseP_cons, htest c List.mem_cons_self,
      ih (fun d hd => htest d (List.mem_cons_of_mem _ hd))]

theorem mem_saved_insertRepository (h : KeepsKeyed s f) (hmeant : f.Meant (.insertRepository re))
    (p : RepositoryEntry) :
    p ∈ (s.insertRepository re).saved re.authority ↔ p ∈ s.saved re.authority ∨ p = re := by
  rw [saved_insertRepository, if_pos rfl, List.mem_append, List.mem_singleton,
    eraseP_sameKeyAndType h hmeant, (h.keyed.nodup _).mem_erase_iff]
  constructor
  · rintro (⟨-, hp⟩ | hp)
    · exact Or.inl hp
    · exact Or.inr hp
  · rintro (hp | hp)
    · by_cases heq : p = re
      · exact Or.inr heq
      · exact Or.inl ⟨heq, hp⟩
    · exact Or.inr hp

theorem KeepsKeyed.insertRepository (h : KeepsKeyed s f) (hmeant : f.Meant (.insertRepository re))
    (hfit : Fit s (.insertRepository re)) :
    KeepsKeyed (s.insertRepository re) (Function.update f re.triple (some re)) := by
  refine KeepsKeyed.of_live (fun a => ?_) (fun a p => ?_) (fun a p hp => ?_)
  · rw [saved_insertRepository]
    by_cases ha : a = re.authority
    · rw [if_pos ha, ha, eraseP_sameKeyAndType h hmeant]
      refine List.nodup_append.mpr
        ⟨(h.keyed.nodup _).erase re, List.pairwise_singleton _ re, ?_⟩
      rintro c hc d hd rfl
      -- the object was taken out before it was put in again
      rw [List.mem_singleton.mp hd, (h.keyed.nodup _).mem_erase_iff] at hc
      exact hc.1 rfl
    · rw [if_neg ha]
      exact h.keyed.nodup a
  · by_cases ha : a = re.authority
    · rw [ha, mem_saved_insertRepository h hmeant, h.keyed.live]
      by_cases ht : p.triple = re.triple
      · rw [ht, Function.update_self, Option.some.injEq]
        have hauth : p.authority = re.authority := congrArg Prod.fst ht
        constructor
        · rintro (⟨-, hf⟩ | rfl)
          · rw [← ht] at hf
            exact ⟨hauth, (hfit p ((h.keyed.live _ p).mpr ⟨hauth, hf⟩) ht).symm⟩
          · exact ⟨rfl, rfl⟩
        · rintro ⟨-, rfl⟩
          exact Or.inr rfl
      · rw [Function.update_of_ne ht]
        constructor
        · rintro (hp | rfl)
          · exact hp
          · exact absurd rfl ht
        · exact Or.inl
    · rw [saved_insertRepository, if_neg ha, h.keyed.live]
      refine and_congr_right (fun hp => ?_)
      rw [Function.update_of_ne]
      intro ht
      exact ha (hp.symm.trans (congrArg Prod.fst ht))
  · rw [saved_insertRepository] at hp
    split at hp
    · rcases List.mem_append.mp hp with hp | hp
      · exact h.keys a p (List.mem_of_mem_eraseP hp)
      · rw [List.mem_singleton.mp hp]
        exact hmeant.2.1
    · exact h.keys a p hp

theorem KeepsKeyed.deleteRepository (h : KeepsKeyed s f) {a k : CString} (ha : a ≠ []) (hk : k ≠ [])
    (hfit : Fit s (.deleteRepository a k)) :
    KeepsKeyed (s.step (.deleteRepository a k 0))
      (fun t => if t.1 = a ∧ t.2.1 = k then none else f t) := by
  refine KeepsKeyed.of_live (fun b => ?_) (fun b p => ?_) (fun b p hp => ?_)
  · rw [saved_deleteRepository s ha hk]
    split
    · exact List.nodup_nil
    · exact h.keyed.nodup b
  · rw [saved_deleteRepository s ha hk]
    by_cases hb : b = a
    · subst hb
      rw [if_pos rfl]
      refine iff_of_false List.not_mem_nil ?_
      rintro ⟨hauth, hf⟩
      split at hf
      · cases hf
      · next hother => exact hother ⟨hauth, hfit p ((h.keyed.live b p).mpr ⟨hauth, hf⟩)⟩
    · rw [if_neg hb, h.keyed.live]
      refine and_congr_right (fun hp => ?_)
      have hother : ¬ (p.triple.1 = a ∧ p.triple.2.1 = k) :=
        fun hcon => hb (hp.symm.trans hcon.1)
      simp only [if_neg hother]
  · rw [saved_deleteRepository s ha hk] at hp
    split at hp
    · cases hp
    · exact h.keys b p hp

/-- **One call**: it keeps the repository keyed if the cache is fit for it. -/
theorem KeepsKeyed.call (h : KeepsKeyed s f) {c : RepositoryCall} (hmeant : f.Meant c)
    (hfit : Fit s c) : KeepsKeyed (s.call c) (f.step c) := by
  cases c with
  | insertRepository re => exact h.insertRepository hmeant hfit
  | deleteRepository a k => exact h.deleteRepository hmeant.1 hmeant.2 hfit

/-- A call that leaves a keyed store was one the cache is fit for. -/
theorem fit_of_isKeyed (h : KeepsKeyed s f) {c : RepositoryCall} (hmeant : f.Meant c)
    (h' : IsKeyed (s.call c) (f.step c)) : Fit s c := by
  cases c with
  | insertRepository re =>
      intro p hp ht
      have hmem := (mem_saved_insertRepository h hmeant p).mpr (Or.inl hp)
      have hlast := ((h'.live _ p).mp hmem).2
      rw [Keyed.step, ht, Function.update_self] at hlast
      exact (Option.some.inj hlast).symm
  | deleteRepository a k =>
      intro p hp
      by_contra hkey
      obtain ⟨hauth, hf⟩ := (h.keyed.live a p).mp hp
      -- an entry of another key should have stayed
      have hstays : p ∈ (s.step (.deleteRepository a k 0)).saved a :=
        (h'.live a p).mpr ⟨hauth, (if_neg (fun hcon => hkey hcon.2)).trans hf⟩
      rw [saved_deleteRepository s hmeant.1 hmeant.2, if_pos rfl] at hstays
      cases hstays

/--
**The repository is a keyed store exactly if no entry is saved in another object while one of
its triple is there, and no authority with several keys is deleted from.**
-/
theorem repository_keyed_iff (enableCompaction : Bool) (calls : List RepositoryCall)
    (hmeant : Guarded (fun f c => some (Keyed.step f c)) Keyed.Meant (fun _ => none) calls) :
    (∀ pre post, calls = pre ++ post →
      IsKeyed (pre.foldl call (new enableCompaction)) (pre.foldl Keyed.step (fun _ => none))) ↔
      Guarded (fun s c => some (call s c)) Fit (new enableCompaction) calls :=
  @foldl_related_iff MemoryCache Keyed RepositoryCall call Keyed.step Fit KeepsKeyed IsKeyed
    Keyed.Meant (fun _ _ h => h.keyed) (fun _ _ _ h hmeant hfit => h.call hmeant hfit)
    (fun _ _ _ h hmeant h' => fit_of_isKeyed h hmeant h') calls (new enableCompaction)
    (fun _ => none) (keepsKeyed_new enableCompaction) hmeant

/-- An entry of an authority and a key. -/
def entryAt (address : Nat) (authority key : CString) : RepositoryEntry :=
  ⟨address, .string, authority, key, [], 0⟩

/-- An entry, its object saved again, and its key deleted. -/
def savedAgain : List RepositoryCall :=
  [.insertRepository (entryAt 0 [65] [1]), .insertRepository (entryAt 0 [65] [1]),
    .deleteRepository [65] [1]]

/-- The object that is saved is the only one. -/
theorem savedAgain_meant :
    Guarded (fun f c => some (Keyed.step f c)) Keyed.Meant (fun _ => none) savedAgain := by
  refine ⟨⟨by decide, by decide, nofun⟩, fun f hf => ⟨⟨by decide, by decide, ?_⟩, fun _ _ => ?_⟩⟩
  · obtain rfl := Option.some.inj hf
    intro t p hp _
    rw [Keyed.step] at hp
    by_cases ht : t = (entryAt 0 [65] [1]).triple
    · rw [ht, Function.update_self] at hp
      exact (Option.some.inj hp).symm
    · rw [Function.update_of_ne ht] at hp
      cases hp
  · exact ⟨⟨by decide, by decide⟩, fun _ _ => trivial⟩

theorem repository_keyed_iff_savedAgain :
    Guarded (fun s c => some (call s c)) Fit (new true) savedAgain ∧
      ∀ pre post, savedAgain = pre ++ post →
        IsKeyed (pre.foldl call (new true)) (pre.foldl Keyed.step (fun _ => none)) := by
  have hfit : Guarded (fun s c => some (call s c)) Fit (new true) savedAgain := by decide +kernel
  exact ⟨hfit, (repository_keyed_iff true savedAgain savedAgain_meant).mpr hfit⟩

/-- Two keys of an authority are saved and the first is deleted: the second is gone too. -/
theorem repository_keyed_fails :
    ¬ ∀ pre post : List RepositoryCall,
      [.insertRepository (entryAt 0 [65] [1]), .insertRepository (entryAt 1 [65] [2]),
        .deleteRepository [65] [1]] = pre ++ post →
      IsKeyed (pre.foldl call (new true)) (pre.foldl Keyed.step (fun _ => none)) := by
  intro h
  have hkeyed := h _ [] (List.append_nil _).symm
  have hnone : ([.insertRepository (entryAt 0 [65] [1]), .insertRepository (entryAt 1 [65] [2]),
      .deleteRepository [65] [1]].foldl call (new true)).saved [65] = [] := by decide +kernel
  have hlive := (hkeyed.live [65] (entryAt 1 [65] [2])).mpr ⟨rfl, by decide⟩
  rw [hnone] at hlive
  cases hlive

end MemoryCache

end Encoders.Store
