import Mathlib.Data.List.Lex
import Mathlib.Data.List.Nodup
import Encoders.Lib.Run
import Encoders.Replication.ObjectState

/-!
# The loops of the replication state

`unCacheNode` and `unCacheDataObject` go through an index from the first entry of what they
remove, and take the key of the entry they are at out of both indices and of the matches. The
position then goes on by one although the entries behind have moved down, so every other entry
is passed over; and no round looks whether the entry is still one to remove. So the loops are
right where there is nothing to remove, or one entry with at most one behind it.
-/

namespace Encoders.Replication

open Encoders.Lib Encoders.Data Encoders.Store

/-! ## Keys -/

theorem getKey_eq (dobjId nodeName : CString) :
    getKey dobjId nodeName = nodeName ++ 58 :: dobjId := by
  unfold getKey
  rw [show lit ":" = [58] from rfl, List.append_assoc, List.singleton_append]

/-- The name of the node comes out of the key, where the id of the object has no colon. -/
theorem nodeIdFromKey_getKey {dobjId : CString} (h : 58 ∉ dobjId) (nodeName : CString) :
    nodeIdFromKey (getKey dobjId nodeName) = nodeName :=
  extractKey_createHash nodeName h

/-- So a key names one pair. -/
theorem getKey_inj {d d' n n' : CString} (h : 58 ∉ d) (h' : 58 ∉ d')
    (heq : getKey d n = getKey d' n') : d = d' ∧ n = n' := by
  have hn : n = n' := by rw [← nodeIdFromKey_getKey h n, heq, nodeIdFromKey_getKey h' n']
  rw [getKey_eq, getKey_eq, hn] at heq
  exact ⟨(List.cons.inj (List.append_cancel_left heq)).2, hn⟩

namespace Index

variable {index : Index}

/-! ## Entries in order -/

/-- The keys do not go down. -/
def Sorted (index : Index) : Prop := index.Pairwise (fun a b => a.1 ≤ b.1)

/-- The entries of a key. -/
def own (index : Index) (key : CString) : Index := index.filter (fun e => e.1 = key)

/-- The entries of greater keys. -/
def later (index : Index) (key : CString) : Index := index.filter (fun e => key < e.1)

theorem mem_insert {entry e : CString × CString} :
    e ∈ index.insert entry ↔ e = entry ∨ e ∈ index := by
  unfold insert
  rw [List.mem_append, List.mem_cons, or_left_comm, ← List.mem_append,
    List.takeWhile_append_dropWhile]

theorem perm_insert (index : Index) (entry : CString × CString) :
    (index.insert entry).Perm (entry :: index) := by
  unfold insert
  refine List.perm_middle.trans ?_
  rw [List.takeWhile_append_dropWhile]

theorem Sorted.insert (h : index.Sorted) (entry : CString × CString) :
    (index.insert entry).Sorted := by
  unfold Sorted Index.insert at *
  have hparts := h
  rw [← List.takeWhile_append_dropWhile (p := fun e : CString × CString => e.1 < entry.1)
    (l := index), List.pairwise_append] at hparts
  obtain ⟨hbefore, hbehind, hcross⟩ := hparts
  have hsmall : ∀ e ∈ index.takeWhile (fun e => e.1 < entry.1), e.1 < entry.1 := by
    intro e he
    simpa using List.mem_takeWhile_imp he
  have hlarge : ∀ e ∈ index.dropWhile (fun e => e.1 < entry.1), entry.1 ≤ e.1 := by
    intro e he
    cases hdrop : index.dropWhile (fun e => e.1 < entry.1) with
    | nil =>
        rw [hdrop] at he
        cases he
    | cons f rest =>
        -- the first entry that is not passed is not smaller, and the others follow it
        have hf : entry.1 ≤ f.1 := by
          have hnot := List.head_dropWhile_not (fun e : CString × CString => e.1 < entry.1)
            (by rw [hdrop]; exact List.cons_ne_nil f rest)
          simp only [hdrop, List.head_cons, decide_eq_false_iff_not, not_lt] at hnot
          exact hnot
        rw [hdrop] at he hbehind
        rcases List.mem_cons.mp he with rfl | he
        · exact hf
        · exact le_trans hf ((List.pairwise_cons.mp hbehind).1 e he)
  refine List.pairwise_append.mpr ⟨hbefore, List.pairwise_cons.mpr ⟨hlarge, hbehind⟩, ?_⟩
  intro a ha b hb
  rcases List.mem_cons.mp hb with rfl | hb
  · exact le_of_lt (hsmall a ha)
  · exact hcross a ha b hb

/-- Without an entry of the key, `find` is at the end. -/
theorem find_of_own_nil {key : CString} (h : index.own key = []) :
    index.find key = index.length := by
  unfold find
  rw [List.findIdx?_eq_none_iff.mpr, Option.getD_none]
  intro e he
  have hnot := List.filter_eq_nil_iff.mp h e he
  simpa using hnot

/-- From the first entry of a key on, the index has its entries and then those of greater keys. -/
theorem drop_find (h : index.Sorted) {key : CString} (hown : index.own key ≠ []) :
    index.drop (index.find key) = index.own key ++ index.later key := by
  induction index with
  | nil => exact absurd rfl hown
  | cons e index ih =>
      obtain ⟨hfirst, hrest⟩ := List.pairwise_cons.mp h
      unfold own later find at *
      by_cases heq : e.1 = key
      · have hfind : List.findIdx? (fun x : CString × CString => x.1 = key) (e :: index) = some 0 := by
          rw [List.findIdx?_cons, if_pos (by simpa using heq)]
        rw [hfind, Option.getD_some, List.drop_zero, List.filter_cons_of_pos (by simpa using heq),
          List.filter_cons_of_neg (by simp [heq]), List.cons_append]
        refine congrArg (e :: ·) ?_
        -- behind it nothing is smaller
        clear ih hfind hown
        induction index with
        | nil => rfl
        | cons f index ih =>
            obtain ⟨hf, hindex⟩ := List.pairwise_cons.mp hrest
            have hle : key ≤ f.1 := heq ▸ hfirst f List.mem_cons_self
            by_cases hfeq : f.1 = key
            · rw [List.filter_cons_of_pos (by simpa using hfeq),
                List.filter_cons_of_neg (by simp [hfeq]), List.cons_append]
              refine congrArg (f :: ·) (ih ?_ ?_ hindex)
              · exact List.pairwise_cons.mpr
                  ⟨fun x hx => hfirst x (List.mem_cons_of_mem _ hx), hindex⟩
              · exact fun x hx => hfirst x (List.mem_cons_of_mem _ hx)
            · have hlt : key < f.1 := lt_of_le_of_ne hle (fun h => hfeq h.symm)
              have hall : ∀ x ∈ index, key < x.1 := fun x hx => lt_of_lt_of_le hlt (hf x hx)
              rw [List.filter_cons_of_neg (by simpa using hfeq),
                List.filter_cons_of_pos (by simpa using hlt),
                List.filter_eq_nil_iff.mpr (fun x hx => by simpa using (hall x hx).ne'),
                List.filter_eq_self.mpr (fun x hx => by simpa using hall x hx), List.nil_append]
      · rw [List.filter_cons_of_neg (by simpa using heq)] at hown ⊢
        have hlt : ¬ key < e.1 := by
          intro hlt
          obtain ⟨f, hf⟩ := List.exists_mem_of_ne_nil _ hown
          obtain ⟨hmem, hkey⟩ := List.mem_filter.mp hf
          have hle := hfirst f hmem
          rw [show f.1 = key by simpa using hkey] at hle
          exact absurd hlt (not_lt.mpr hle)
        rw [List.filter_cons_of_neg (by simpa using hlt), ← ih hrest hown, List.findIdx?_cons,
          if_neg (by simpa using heq)]
        cases index.findIdx? (fun x => x.1 = key) with
        | none => simp
        | some i => simp

end Index

/-! ## The two loops -/

/-- What a loop works on: the index it goes through, the other one, and the matches. -/
structure Tables where
  own : Index
  other : Index
  strengths : CString → Option Match

namespace Tables

variable {it : Nat} {entry : CString × CString}
variable {index rest : Index} {n : Nat} {second : CString × CString}

/-- Both loops; `start` is where the search in the other index starts. -/
def loop (start : CString → Index → Nat) : Nat → Nat → Tables → Tables
  | 0, _, t => t
  | n + 1, it, t =>
      match t.own[it]? with
      | none => t
      | some entry =>
          match t.strengths entry.2 with
          | none => { t with own := t.own.eraseIdx it }
          | some _ =>
              loop start n (it + 1)
                { own := t.own.eraseIdx it
                  other := t.other.eraseValue (start entry.2 t.other) entry.2
                  strengths := fun k => if k = entry.2 then none else t.strengths k }

/-- The tables without a key. -/
def without (t : Tables) (key : CString) : Tables where
  own := t.own.filter (fun e => e.2 ≠ key)
  other := t.other.filter (fun e => e.2 ≠ key)
  strengths := fun k => if k = key then none else t.strengths k

/-- Both indices list the keys of the matches, each once; `Fine` holds of the other's entries. -/
structure Synced (Fine : CString × CString → Prop) (t : Tables) : Prop where
  ownNodup : (t.own.map Prod.snd).Nodup
  otherNodup : (t.other.map Prod.snd).Nodup
  own : ∀ k, k ∈ t.own.map Prod.snd ↔ (t.strengths k).isSome = true
  other : ∀ k, k ∈ t.other.map Prod.snd ↔ (t.strengths k).isSome = true
  fine : ∀ e ∈ t.other, Fine e

variable {Fine : CString × CString → Prop} {start : CString → Index → Nat} {t : Tables}

theorem mem_map_filter {key k : CString} :
    k ∈ (index.filter (fun e => e.2 ≠ key)).map Prod.snd ↔ k ∈ index.map Prod.snd ∧ k ≠ key := by
  simp only [List.mem_map, List.mem_filter, decide_eq_true_eq]
  constructor
  · rintro ⟨e, ⟨he, hne⟩, rfl⟩
    exact ⟨⟨e, he, rfl⟩, hne⟩
  · rintro ⟨⟨e, he, rfl⟩, hne⟩
    exact ⟨e, ⟨he, hne⟩, rfl⟩

theorem Synced.without (h : t.Synced Fine) (key : CString) : (t.without key).Synced Fine where
  ownNodup := h.ownNodup.sublist (List.filter_sublist.map _)
  otherNodup := h.otherNodup.sublist (List.filter_sublist.map _)
  own := by
    intro k
    unfold Tables.without
    dsimp only
    rw [mem_map_filter, h.own]
    by_cases hk : k = key
    · simp [hk]
    · simp [hk]
  other := by
    intro k
    unfold Tables.without
    dsimp only
    rw [mem_map_filter, h.other]
    by_cases hk : k = key
    · simp [hk]
    · simp [hk]
  fine := fun e he => h.fine e (List.mem_of_mem_filter he)

/-- An entry is told by its value, so erasing one at its place is leaving out its value. -/
theorem eraseIdx_eq_filter (h : (index.map Prod.snd).Nodup) (hit : index[it]? = some entry) :
    index.eraseIdx it = index.filter (fun e => e.2 ≠ entry.2) := by
  induction index generalizing it with
  | nil => cases hit
  | cons e index ih =>
      obtain ⟨hnot, hnodup⟩ := List.nodup_cons.mp h
      cases it with
      | zero =>
          obtain rfl := Option.some.inj hit
          rw [List.eraseIdx_cons_zero, List.filter_cons_of_neg (by simp)]
          refine (List.filter_eq_self.mpr (fun f hf => ?_)).symm
          have hne : f.2 ≠ e.2 := fun heq => hnot (heq ▸ List.mem_map_of_mem hf)
          simpa using hne
      | succ it =>
          rw [List.getElem?_cons_succ] at hit
          have hne : e.2 ≠ entry.2 := fun heq =>
            hnot (heq ▸ List.mem_map_of_mem (List.mem_of_getElem? hit))
          rw [List.eraseIdx_cons_succ, List.filter_cons_of_pos (by simpa using hne),
            ih hnodup hit]

/-- So is erasing it by its value, from a place that is not behind it. -/
theorem eraseValue_eq_filter (h : (index.map Prod.snd).Nodup) {begin' : Nat} {key : CString}
    (hbegin : ∀ e ∈ index.take begin', e.2 ≠ key) :
    index.eraseValue begin' key = index.filter (fun e => e.2 ≠ key) := by
  unfold Index.eraseValue
  have herase : ∀ l : Index, (l.map Prod.snd).Nodup →
      l.eraseP (fun e => e.2 = key) = l.filter (fun e => e.2 ≠ key) := by
    intro l
    induction l with
    | nil => exact fun _ => rfl
    | cons e l ih =>
        intro hl
        obtain ⟨hnot, hnodup⟩ := List.nodup_cons.mp hl
        by_cases heq : e.2 = key
        · rw [List.eraseP_cons_of_pos (by simpa using heq),
            List.filter_cons_of_neg (by simp [heq])]
          refine (List.filter_eq_self.mpr (fun f hf => ?_)).symm
          have hne : f.2 ≠ key := fun hsame =>
            hnot (heq.trans hsame.symm ▸ List.mem_map_of_mem hf)
          simpa using hne
        · rw [List.eraseP_cons_of_neg (by simpa using heq),
            List.filter_cons_of_pos (by simpa using heq), ih hnodup]
  have hdrop : ((index.drop begin').map Prod.snd).Nodup :=
    h.sublist ((List.drop_sublist _ _).map _)
  rw [herase _ hdrop]
  have hkeep : index.take begin' = (index.take begin').filter (fun e => e.2 ≠ key) :=
    (List.filter_eq_self.mpr (fun e he => by simpa using hbegin e he)).symm
  rw [hkeep, ← List.filter_append, List.take_append_drop]

/-- The search starts at a place that is not behind the entry. -/
def Starts (start : CString → Index → Nat) (Fine : CString × CString → Prop) : Prop :=
  ∀ index : Index, (∀ e ∈ index, Fine e) → (index.map Prod.snd).Nodup →
    ∀ key ∈ index.map Prod.snd, ∀ e ∈ index.take (start key index), e.2 ≠ key

/-- **A round takes out the key of the entry it is at**, and goes on one entry further. -/
theorem loop_succ (hstart : Starts start Fine) (h : t.Synced Fine) (hit : t.own[it]? = some entry) :
    t.loop start (n + 1) it = (t.without entry.2).loop start n (it + 1) := by
  have hmem : entry.2 ∈ t.own.map Prod.snd := List.mem_map_of_mem (List.mem_of_getElem? hit)
  obtain ⟨m, hm⟩ := Option.isSome_iff_exists.mp ((h.own entry.2).mp hmem)
  have hother : entry.2 ∈ t.other.map Prod.snd := (h.other entry.2).mpr ((h.own entry.2).mp hmem)
  rw [loop, hit]
  dsimp only
  rw [hm, eraseIdx_eq_filter h.ownNodup hit,
    eraseValue_eq_filter h.otherNodup (hstart t.other h.fine h.otherNodup entry.2 hother)]
  rfl

theorem loop_end (hit : t.own[it]? = none) : t.loop start n it = t := by
  cases n with
  | zero => rfl
  | succ n => rw [loop, hit]

/-- What a round leaves behind the place it goes on to. -/
theorem drop_without (h : t.Synced Fine) (hit : t.own[it]? = some entry) :
    (t.without entry.2).own.drop (it + 1) = t.own.drop (it + 2) := by
  unfold without
  dsimp only
  rw [← eraseIdx_eq_filter h.ownNodup hit, List.eraseIdx_eq_take_drop_succ]
  have hlen : it < t.own.length := (List.getElem?_eq_some_iff.mp hit).1
  rw [List.drop_append, List.length_take, Nat.min_eq_left (Nat.le_of_lt hlen),
    List.drop_eq_nil_of_le (by rw [List.length_take]; omega), List.nil_append, List.drop_drop]
  congr 1
  omega

/-- A match whose key is not among the entries from the place on is not touched. -/
theorem loop_keeps (hstart : Starts start Fine) (h : t.Synced Fine) {key : CString}
    (hkey : key ∉ (t.own.drop it).map Prod.snd) :
    (t.loop start n it).strengths key = t.strengths key := by
  induction n generalizing it t with
  | zero => rfl
  | succ n ih =>
      cases hit : t.own[it]? with
      | none => rw [loop_end hit]
      | some entry =>
          have hentry : entry ∈ t.own.drop it := by
            rw [List.drop_eq_getElem_cons (List.getElem?_eq_some_iff.mp hit).1]
            rw [(List.getElem?_eq_some_iff.mp hit).2]
            exact List.mem_cons_self
          have hne : key ≠ entry.2 := fun heq => hkey (heq ▸ List.mem_map_of_mem hentry)
          rw [loop_succ hstart h hit, ih (h.without entry.2) ?_]
          · exact if_neg hne
          · rw [drop_without h hit]
            have hsub : (t.own.drop (it + 2)).Sublist (t.own.drop it) := by
              rw [← List.drop_drop]
              exact List.drop_sublist _ _
            exact fun hmem => hkey ((hsub.map Prod.snd).subset hmem)

/-- No loop brings a match back. -/
theorem loop_none {key : CString} (h : t.strengths key = none) :
    (t.loop start n it).strengths key = none := by
  induction n generalizing it t with
  | zero => exact h
  | succ n ih =>
      rw [loop]
      split
      · exact h
      · split
        · exact h
        · refine ih ?_
          dsimp only
          split
          · rfl
          · exact h

/-- One entry, and at most one behind it: the first goes. -/
theorem loop_short (hstart : Starts start Fine) (h : t.Synced Fine)
    (hdrop : t.own.drop it = entry :: rest) (hrest : rest.length ≤ 1) :
    t.loop start (n + 1) it = t.without entry.2 := by
  have hit : t.own[it]? = some entry := by
    rw [← List.head?_drop, hdrop]
    rfl
  rw [loop_succ hstart h hit]
  refine loop_end ?_
  rw [← List.head?_drop, drop_without h hit, show it + 2 = it + 1 + 1 from rfl, ← List.drop_drop,
    ← List.drop_drop, hdrop, List.drop_succ_cons, List.drop_zero,
    List.drop_eq_nil_of_le hrest]
  rfl

/-- The entry behind the first is passed over. -/
theorem loop_second (hstart : Starts start Fine) (h : t.Synced Fine)
    (hdrop : t.own.drop it = entry :: second :: rest) :
    (t.loop start (n + 1) it).strengths second.2 = t.strengths second.2 := by
  have hit : t.own[it]? = some entry := by
    rw [← List.head?_drop, hdrop]
    rfl
  have hnodup : ((entry :: second :: rest).map Prod.snd).Nodup := by
    rw [← hdrop]
    exact h.ownNodup.sublist ((List.drop_sublist _ _).map _)
  rw [List.map_cons, List.map_cons, List.nodup_cons, List.nodup_cons] at hnodup
  have hne : second.2 ≠ entry.2 := fun heq => hnodup.1 (heq ▸ List.mem_cons_self)
  rw [loop_succ hstart h hit, loop_keeps hstart (h.without entry.2) ?_]
  · exact if_neg hne
  · rw [drop_without h hit, show it + 2 = it + 1 + 1 from rfl, ← List.drop_drop,
      ← List.drop_drop, hdrop]
    exact hnodup.2.1

/-- The one after that goes, whatever its key. -/
theorem loop_third (hstart : Starts start Fine) (h : t.Synced Fine) {third : CString × CString}
    (hdrop : t.own.drop it = entry :: second :: third :: rest) :
    (t.loop start (n + 2) it).strengths third.2 = none := by
  have hit : t.own[it]? = some entry := by
    rw [← List.head?_drop, hdrop]
    rfl
  have hnext : (t.without entry.2).own[it + 1]? = some third := by
    rw [← List.head?_drop, drop_without h hit, show it + 2 = it + 1 + 1 from rfl,
      ← List.drop_drop, ← List.drop_drop, hdrop]
    rfl
  rw [loop_succ hstart h hit, loop_succ hstart (h.without entry.2) hnext]
  refine loop_none ?_
  exact if_pos rfl

/-! ## What a whole loop does -/

/-- Nothing to remove, or one entry with at most one behind it. -/
def Fits (index : Index) (key : CString) : Prop :=
  index.own key = [] ∨ (index.own key).length = 1 ∧ (index.later key).length ≤ 1

/-- The tables without the keys of a kind. -/
def drop (t : Tables) (p : CString → Bool) : Tables where
  own := t.own.filter (fun e => !p e.2)
  other := t.other.filter (fun e => !p e.2)
  strengths := fun k => if p k then none else t.strengths k

theorem Synced.none_of_not_mem (h : t.Synced Fine) {k : CString} (hk : k ∉ t.own.map Prod.snd) :
    t.strengths k = none := by
  cases hm : t.strengths k with
  | none => rfl
  | some m => exact absurd ((h.own k).mpr (by rw [hm]; rfl)) hk

/-- Dropping keys that are not there. -/
theorem drop_eq_self (h : t.Synced Fine) {p : CString → Bool}
    (hp : ∀ k ∈ t.own.map Prod.snd, p k = false) : t.drop p = t := by
  have hown : t.own.filter (fun e => !p e.2) = t.own :=
    List.filter_eq_self.mpr (fun e he => by rw [hp e.2 (List.mem_map_of_mem he)]; rfl)
  have hother : t.other.filter (fun e => !p e.2) = t.other := by
    refine List.filter_eq_self.mpr (fun e he => ?_)
    rw [hp e.2 ((h.own e.2).mpr ((h.other e.2).mp (List.mem_map_of_mem he)))]
    rfl
  have hstrengths : (fun k => if p k then none else t.strengths k) = t.strengths := by
    funext k
    by_cases hk : k ∈ t.own.map Prod.snd
    · rw [hp k hk]
      rfl
    · rw [h.none_of_not_mem hk]
      exact ite_self _
  unfold drop
  rw [hown, hother, hstrengths]

/-- Dropping one key. -/
theorem drop_eq_without (h : t.Synced Fine) {p : CString → Bool} {key : CString}
    (hp : ∀ k ∈ t.own.map Prod.snd, (p k = true ↔ k = key)) : t.drop p = t.without key := by
  have hval : ∀ k ∈ t.own.map Prod.snd, (!p k) = decide (k ≠ key) := by
    intro k hk
    have hiff := hp k hk
    by_cases heq : k = key
    · rw [hiff.mpr heq]
      simp [heq]
    · rw [Bool.eq_false_iff.mpr (fun hpk => heq (hiff.mp hpk))]
      simp [heq]
  have hown : t.own.filter (fun e => !p e.2) = t.own.filter (fun e => e.2 ≠ key) :=
    List.filter_congr (fun e he => hval e.2 (List.mem_map_of_mem he))
  have hother : t.other.filter (fun e => !p e.2) = t.other.filter (fun e => e.2 ≠ key) :=
    List.filter_congr (fun e he =>
      hval e.2 ((h.own e.2).mpr ((h.other e.2).mp (List.mem_map_of_mem he))))
  have hstrengths : (fun k => if p k then none else t.strengths k) =
      (fun k => if k = key then none else t.strengths k) := by
    funext k
    by_cases hk : k ∈ t.own.map Prod.snd
    · by_cases heq : k = key
      · rw [if_pos ((hp k hk).mpr heq), if_pos heq]
      · rw [if_neg (fun hpk => heq ((hp k hk).mp hpk)), if_neg heq]
    · rw [h.none_of_not_mem hk, ite_self, ite_self]
  unfold drop without
  rw [hown, hother, hstrengths]

variable {p : CString → Bool} {key : CString}

/-- **Where the index fits, the loop removes what is of the key and nothing else.** -/
theorem loop_of_fits (hstart : Starts start Fine) (h : t.Synced Fine) (hsorted : t.own.Sorted)
    (hp : ∀ e ∈ t.own, (p e.2 = true ↔ e.1 = key)) (hfits : Fits t.own key) :
    t.loop start (t.own.length + 1) (t.own.find key) = t.drop p := by
  rcases hfits with hnil | ⟨hone, hlater⟩
  · rw [Index.find_of_own_nil hnil, loop_end (List.getElem?_eq_none (Nat.le_refl _)),
      drop_eq_self h]
    intro k hk
    obtain ⟨e, he, rfl⟩ := List.mem_map.mp hk
    refine Bool.eq_false_iff.mpr (fun hpe => ?_)
    exact List.filter_eq_nil_iff.mp hnil e he (by simpa using (hp e he).mp hpe)
  · obtain ⟨entry, hentry⟩ := List.length_eq_one_iff.mp hone
    have hown : t.own.own key ≠ [] := by
      rw [hentry]
      exact List.cons_ne_nil _ _
    have hdrop := Index.drop_find hsorted hown
    rw [hentry, List.singleton_append] at hdrop
    rw [loop_short hstart h hdrop hlater, drop_eq_without h]
    -- the entry is the only one of the key
    have hin : entry ∈ t.own.own key := hentry ▸ List.mem_cons_self
    obtain ⟨hmem, hkey⟩ := List.mem_filter.mp hin
    intro k hk
    obtain ⟨e, he, rfl⟩ := List.mem_map.mp hk
    constructor
    · intro hpe
      have hown : e ∈ t.own.own key :=
        List.mem_filter.mpr ⟨he, by simpa using (hp e he).mp hpe⟩
      rw [hentry, List.mem_singleton] at hown
      rw [hown]
    · intro heq
      rw [heq]
      exact (hp entry hmem).mpr (by simpa using hkey)

/-- **And only there.** -/
theorem fits_of_loop (hstart : Starts start Fine) (h : t.Synced Fine) (hsorted : t.own.Sorted)
    (hp : ∀ e ∈ t.own, (p e.2 = true ↔ e.1 = key))
    (hexact : ∀ k ∈ t.own.map Prod.snd,
      (((t.loop start (t.own.length + 1) (t.own.find key)).strengths k).isSome = true ↔
        p k = false)) : Fits t.own key := by
  cases hown : t.own.own key with
  | nil => exact Or.inl hown
  | cons entry others =>
      refine Or.inr ?_
      have hfound : t.own.own key ≠ [] := by
        rw [hown]
        exact List.cons_ne_nil _ _
      have hdrop := Index.drop_find hsorted hfound
      rw [hown, List.cons_append] at hdrop
      cases others with
      | cons second others =>
          -- a second entry of the key is passed over
          rw [List.cons_append] at hdrop
          have hin : second ∈ t.own.own key := by
            rw [hown]
            exact List.mem_cons_of_mem _ List.mem_cons_self
          obtain ⟨hmem, hkey⟩ := List.mem_filter.mp hin
          have hvalue := List.mem_map_of_mem (f := Prod.snd) hmem
          have hiff := hexact second.2 hvalue
          rw [loop_second hstart h hdrop, (h.own second.2).mp hvalue] at hiff
          rw [(hp second hmem).mpr (by simpa using hkey)] at hiff
          exact absurd (hiff.mp rfl) (by decide)
      | nil =>
          rw [List.nil_append] at hdrop
          refine ⟨by rw [hown]; rfl, ?_⟩
          cases hlater : t.own.later key with
          | nil => exact Nat.zero_le _
          | cons second rest =>
              cases rest with
              | nil => exact Nat.le_refl _
              | cons third rest =>
                  -- the second behind it goes, although it is of another key
                  rw [hlater] at hdrop
                  have hin : third ∈ t.own.later key := by
                    rw [hlater]
                    exact List.mem_cons_of_mem _ List.mem_cons_self
                  obtain ⟨hmem, hkey⟩ := List.mem_filter.mp hin
                  have hlt : key < third.1 := by simpa using hkey
                  have hlen : 1 ≤ t.own.length := List.length_pos_of_mem hmem
                  have hnone := loop_third (n := t.own.length - 1) hstart h hdrop
                  rw [show t.own.length - 1 + 2 = t.own.length + 1 by omega] at hnone
                  have hiff := hexact third.2 (List.mem_map_of_mem hmem)
                  rw [hnone] at hiff
                  have hpf : p third.2 = false :=
                    Bool.eq_false_iff.mpr (fun hpe => hlt.ne' ((hp third hmem).mp hpe))
                  exact absurd (hiff.mpr hpf) (by decide)

end Tables

end Encoders.Replication
