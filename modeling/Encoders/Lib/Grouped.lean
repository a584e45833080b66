import Mathlib.Data.List.Basic

/-!
# Sequences with equal keys side by side

A sequence of pairs in which the pairs of one key form one run, as a chain of a hash
table that is also a multimap keeps them. A program walks such a sequence to the first
pair of its key and goes on while the key stays the same; it sees every pair of the key
because there is no second run.

`atKey` says what a sequence has under a key, run or not. Every operation is described by
what it does to `atKey`, and keeps the runs together.
-/

namespace Encoders.Lib

variable {κ ν : Type} [DecidableEq κ]
variable {k : κ} {l : List (κ × ν)} {α : Type}
variable {v : ν} {e : κ × ν}

/-- What a sequence has under a key, in order. -/
def atKey (k : κ) (l : List (κ × ν)) : List ν :=
  (l.filter (fun e => e.1 = k)).map Prod.snd

@[simp] theorem atKey_nil (k : κ) : atKey k ([] : List (κ × ν)) = [] := rfl

theorem atKey_cons (k : κ) (e : κ × ν) (l : List (κ × ν)) :
    atKey k (e :: l) = if e.1 = k then e.2 :: atKey k l else atKey k l := by
  unfold atKey
  rw [List.filter_cons]
  by_cases h : e.1 = k <;> simp [h]

theorem atKey_append (k : κ) (l m : List (κ × ν)) :
    atKey k (l ++ m) = atKey k l ++ atKey k m := by
  unfold atKey
  rw [List.filter_append, List.map_append]

theorem mem_atKey : v ∈ atKey k l ↔ (k, v) ∈ l := by
  unfold atKey
  rw [List.mem_map]
  constructor
  · rintro ⟨e, he, rfl⟩
    rw [List.mem_filter, decide_eq_true_eq] at he
    rw [← he.2]
    exact he.1
  · intro h
    exact ⟨(k, v), by simp [h], rfl⟩

theorem atKey_eq_nil : atKey k l = [] ↔ ∀ e ∈ l, e.1 ≠ k := by
  unfold atKey
  rw [List.map_eq_nil_iff, List.filter_eq_nil_iff]
  simp

/-- A filter that acts under one key. -/
theorem atKey_filter_at (k : κ) (p : ν → Bool) (l : List (κ × ν)) (k' : κ) :
    atKey k' (l.filter (fun e => !(decide (e.1 = k) && p e.2))) =
      if k' = k then (atKey k l).filter (fun v => !p v) else atKey k' l := by
  induction l with
  | nil => simp
  | cons e l ih =>
      rw [List.filter_cons, atKey_cons k e l, atKey_cons k' e l]
      by_cases hk : e.1 = k
      · cases hp : p e.2 with
        | true =>
            by_cases hk' : k' = k
            · simpa [hk, hp, hk'] using ih
            · simpa [hk, hp, hk', Ne.symm hk'] using ih
        | false =>
            by_cases hk' : k' = k
            · simpa [hk, hp, hk', atKey_cons] using ih
            · simpa [hk, hp, hk', atKey_cons, Ne.symm hk'] using ih
      · by_cases hk' : k' = k
        · simpa [hk, hk', atKey_cons] using ih
        · rw [if_neg hk', if_pos (by simp [hk]), atKey_cons, ih, if_neg hk']

/-- Erasing the first pair of a key that passes a test. -/
theorem atKey_eraseP_at (k : κ) (p : ν → Bool) (l : List (κ × ν)) (k' : κ) :
    atKey k' (l.eraseP (fun e => decide (e.1 = k) && p e.2)) =
      if k' = k then (atKey k l).eraseP p else atKey k' l := by
  induction l with
  | nil => simp
  | cons e l ih =>
      rw [List.eraseP_cons, atKey_cons k e l, atKey_cons k' e l]
      by_cases hk : e.1 = k
      · cases hp : p e.2 with
        | true =>
            by_cases hk' : k' = k
            · simp [hk, hp, hk']
            · simp [hk, hk', Ne.symm hk']
        | false =>
            by_cases hk' : k' = k
            · simpa [hk, hp, hk', atKey_cons] using ih
            · simpa [hk, hp, hk', atKey_cons, Ne.symm hk'] using ih
      · by_cases hk' : k' = k
        · simpa [hk, hk', atKey_cons] using ih
        · simp [hk, hk', atKey_cons, ih]

theorem count_atKey [DecidableEq ν] (k : κ) (v : ν) (l : List (κ × ν)) :
    (atKey k l).count v = l.count (k, v) := by
  induction l with
  | nil => rfl
  | cons e l ih =>
      rw [atKey_cons, List.count_cons]
      by_cases hk : e.1 = k
      · rw [if_pos hk, List.count_cons, ih]
        by_cases hv : e.2 = v
        · rw [if_pos (by simp [hv]), if_pos (by simp [← hk, ← hv])]
        · have hne : e ≠ (k, v) := fun heq => hv (by rw [heq])
          rw [if_neg (by simp [hv]), if_neg (by simpa using hne)]
      · have hne : e ≠ (k, v) := fun heq => hk (by rw [heq])
        rw [if_neg hk, if_neg (by simpa using hne), Nat.add_zero, ih]

open Classical in
/-- **Lists that agree under every key are the same but for the order of keys.** -/
theorem perm_of_atKey {l' : List (κ × ν)} (h : ∀ k, atKey k l = atKey k l') : l.Perm l' := by
  rw [List.perm_iff_count]
  rintro ⟨k, v⟩
  have hcount := congrArg (List.count v) (h k)
  rw [count_atKey, count_atKey] at hcount
  convert hcount

/-! ## Many edits -/

/-- Filters for one key after the other are one filter. -/
theorem foldl_filter_eq_filter (f : α → κ) (p : α → Bool) : ∀ (ks : List κ) (l : List α),
    ks.foldl (fun l k => l.filter (fun e => !(decide (f e = k) && p e))) l =
      l.filter (fun e => !(decide (f e ∈ ks) && p e))
  | [], l => by simp
  | k :: ks, l => by
      rw [List.foldl_cons, foldl_filter_eq_filter f p ks, List.filter_filter]
      congr 1
      funext e
      by_cases hk : f e = k
      · cases p e <;> simp [hk]
      · simp [hk]

omit [DecidableEq κ] in
/-- What is erased is not kept by a filter. -/
theorem filter_eraseP {p q : α → Bool} (h : ∀ e, q e = true → p e = false) :
    ∀ l : List α, (l.eraseP q).filter p = l.filter p
  | [] => rfl
  | e :: l => by
      rw [List.eraseP_cons]
      cases hq : q e with
      | true =>
          rw [cond_true, List.filter_cons, if_neg (by simp [h e hq])]
      | false =>
          rw [cond_false, List.filter_cons, List.filter_cons, filter_eraseP h l]

omit [DecidableEq κ] in
theorem countP_eraseP (q : α → Bool) : ∀ l : List α,
    (l.eraseP q).countP q = l.countP q - 1
  | [] => rfl
  | e :: l => by
      rw [List.eraseP_cons]
      cases hq : q e with
      | true => simp [hq]
      | false => simp [hq, countP_eraseP q l]

/-- Erasing once for every time a key is named takes all out, if the key is named often enough. -/
theorem foldl_eraseP_eq_filter {f : α → κ} {p : α → Bool} :
    ∀ (ks : List κ) (l : List α),
      (∀ k, l.countP (fun e => decide (f e = k) && p e) ≤ ks.count k) →
      ks.foldl (fun l k => l.eraseP (fun e => decide (f e = k) && p e)) l =
        l.filter (fun e => !p e)
  | [], l, h => by
      rw [List.foldl_nil, List.filter_eq_self.mpr]
      intro e he
      have hcount := h (f e)
      rw [List.count_nil, Nat.le_zero, List.countP_eq_zero] at hcount
      simpa using hcount e he
  | k :: ks, l, h => by
      rw [List.foldl_cons, foldl_eraseP_eq_filter ks]
      · refine filter_eraseP ?_ l
        intro e he
        rw [Bool.and_eq_true] at he
        simp [he.2]
      · intro k'
        have hcount := h k'
        rw [List.count_cons] at hcount
        by_cases hk : k = k'
        · subst hk
          rw [if_pos (by simp)] at hcount
          rw [countP_eraseP]
          omega
        · rw [if_neg (by simpa using hk), Nat.add_zero] at hcount
          exact Nat.le_trans ((List.eraseP_sublist).countP_le) hcount

/-! ## Lists of records -/

omit [DecidableEq κ] in
/-- A filter that keeps or drops all that a record gives. -/
theorem filter_flatMap_eq {β : Type} {f : α → List β} {p : β → Bool} {q : α → Bool} :
    ∀ {l : List α}, (∀ x ∈ l, ∀ e ∈ f x, p e = q x) →
      (l.flatMap f).filter p = (l.filter q).flatMap f
  | [], _ => rfl
  | x :: l, h => by
      have hx := h x List.mem_cons_self
      rw [List.flatMap_cons, List.filter_append,
        filter_flatMap_eq (fun y hy => h y (List.mem_cons_of_mem _ hy)), List.filter_cons]
      cases hq : q x with
      | true =>
          rw [if_pos rfl, List.flatMap_cons, List.filter_eq_self.mpr]
          intro e he
          rw [hx e he, hq]
      | false =>
          rw [if_neg (by simp), List.filter_eq_nil_iff.mpr, List.nil_append]
          intro e he
          rw [hx e he, hq]
          simp

/-- Records listed by their keys. -/
theorem atKey_records (f : α → κ) (k : κ) (l : List α) :
    atKey k (l.map (fun x => (f x, x))) = l.filter (fun x => f x = k) := by
  induction l with
  | nil => rfl
  | cons x l ih =>
      rw [List.map_cons, atKey_cons, ih, List.filter_cons]
      simp

/-- Where no two records have the same key, a key has its record only. -/
theorem filter_key_eq {f : α → κ} : ∀ {l : List α} {x : α}, (l.map f).Nodup → x ∈ l →
    l.filter (fun y => f y = f x) = [x]
  | y :: l, x, hnodup, hx => by
      rw [List.map_cons, List.nodup_cons] at hnodup
      rcases List.mem_cons.mp hx with rfl | hx
      · rw [List.filter_cons, if_pos (by simp), List.filter_eq_nil_iff.mpr]
        intro z hz heq
        exact hnodup.1 (by rw [← of_decide_eq_true heq]; exact List.mem_map_of_mem hz)
      · rw [List.filter_cons, if_neg, filter_key_eq hnodup.2 hx]
        intro heq
        exact hnodup.1 (by rw [of_decide_eq_true heq]; exact List.mem_map_of_mem hx)

/-- Of what the records give, that of one record is counted only. -/
theorem countP_flatMap_key {β : Type} {f : α → List β} {id : α → κ} {g : β → κ} {l : List α} {x : α}
    (hg : ∀ y ∈ l, ∀ e ∈ f y, g e = id y) (hnodup : (l.map id).Nodup) (hx : x ∈ l) (q : β → Bool) :
    (l.flatMap f).countP (fun e => q e && decide (g e = id x)) = (f x).countP q := by
  rw [← List.countP_filter, filter_flatMap_eq (q := fun y => id y = id x), filter_key_eq hnodup hx,
    List.flatMap_singleton]
  intro y hy e he
  rw [hg y hy e he]

theorem count_map_key (f : α → κ) (l : List α) (k : κ) :
    (l.map f).count k = l.countP (fun x => decide (f x = k)) := by
  rw [List.count, List.countP_map]
  refine List.countP_congr ?_
  simp

/-- As many pairs of a key as it is named. -/
theorem length_atKey_map (v : ν) (ks : List κ) (k : κ) :
    (atKey k (ks.map (fun k => (k, v)))).length = ks.count k := by
  induction ks with
  | nil => rfl
  | cons k' ks ih =>
      rw [List.map_cons, atKey_cons, List.count_cons]
      by_cases hk : k' = k
      · simp [hk, ih]
      · simp [hk, ih]

omit [DecidableEq κ] in
/-- A loop that leaves some out. -/
theorem foldl_unless {β : Type} (p : α → Bool) (f : β → α → β) (l : List α) (b : β) :
    l.foldl (fun b x => if p x then b else f b x) b = (l.filter (fun x => !p x)).foldl f b := by
  rw [List.foldl_filter]
  congr 1
  funext b x
  cases p x <;> rfl

/-! ## Runs -/

/-- A key that comes again comes next. -/
def Grouped : List (κ × ν) → Prop
  | [] => True
  | e :: l => Grouped l ∧ ((∃ f ∈ l, f.1 = e.1) → ∃ f, l.head? = some f ∧ f.1 = e.1)

omit [DecidableEq κ] in
/-- Behind the last pair of a run the key does not come again. -/
theorem Grouped.run_ends (h : Grouped (e :: l)) (hhead : ∀ f, l.head? = some f → f.1 ≠ e.1) :
    ∀ f ∈ l, f.1 ≠ e.1 := by
  intro f hf heq
  obtain ⟨g, hg, hgk⟩ := h.2 ⟨f, hf, heq⟩
  exact hhead g hg hgk

/-- After a pair of the key the run goes on, or it was the last one. -/
theorem Grouped.next_or_done (h : Grouped (e :: l)) (hk : e.1 = k) :
    (∃ f, l.head? = some f ∧ f.1 = k) ∨ atKey k l = [] := by
  by_cases hnext : ∃ f, l.head? = some f ∧ f.1 = k
  · exact Or.inl hnext
  · refine Or.inr (atKey_eq_nil.mpr ?_)
    rw [← hk]
    refine h.run_ends ?_
    intro f hf hfk
    exact hnext ⟨f, hf, hfk.trans hk⟩

/-- A run that does not start here is over. -/
theorem atKey_eq_nil_of_past (h : (∃ f, (e :: l).head? = some f ∧ f.1 = k) ∨ atKey k (e :: l) = [])
    (hk : e.1 ≠ k) : atKey k (e :: l) = [] := by
  rcases h with ⟨f, hf, hfk⟩ | h
  · simp only [List.head?_cons, Option.some.injEq] at hf
    exact absurd (hf ▸ hfk) hk
  · exact h

omit [DecidableEq κ] in
/-- Sequences without a key in common, one after the other. -/
theorem Grouped.append : ∀ {l m : List (κ × ν)}, Grouped l → Grouped m →
    (∀ e ∈ l, ∀ f ∈ m, e.1 ≠ f.1) → Grouped (l ++ m)
  | [], _, _, hm, _ => hm
  | e :: l, m, hl, hm, hne => by
      refine ⟨Grouped.append hl.1 hm (fun e' he' => hne e' (List.mem_cons_of_mem e he')), ?_⟩
      intro hagain
      obtain ⟨f, hf, hfe⟩ := hagain
      rcases List.mem_append.mp hf with hin | hother
      · obtain ⟨g, hg, hge⟩ := hl.2 ⟨f, hin, hfe⟩
        have hhead : (l ++ m).head? = some g := by
          rw [List.head?_append, hg]
          rfl
        exact ⟨g, hhead, hge⟩
      · exact absurd hfe.symm (hne e List.mem_cons_self f hother)

/-- Walk while the key stays the same. -/
def runOn (k : κ) : List (κ × ν) → List ν
  | [] => []
  | e :: l => if e.1 = k then e.2 :: runOn k l else []

/-- Walk to the first pair of the key and on while it stays the same. -/
def runAt (k : κ) : List (κ × ν) → List ν
  | [] => []
  | e :: l => if e.1 = k then e.2 :: runOn k l else runAt k l

theorem takeWhile_eq_runOn (k : κ) : ∀ l : List (κ × ν),
    (l.takeWhile (fun e => k = e.1)).map Prod.snd = runOn k l
  | [] => rfl
  | e :: l => by
      unfold runOn
      by_cases hk : e.1 = k
      · rw [List.takeWhile_cons_of_pos (by simp [hk]), List.map_cons, takeWhile_eq_runOn k l,
          if_pos hk]
      · rw [List.takeWhile_cons_of_neg (by simp [Ne.symm hk]), List.map_nil, if_neg hk]

theorem takeWhile_dropWhile_eq_runAt (k : κ) : ∀ l : List (κ × ν),
    ((l.dropWhile (fun e => !decide (k = e.1))).takeWhile (fun e => k = e.1)).map Prod.snd =
      runAt k l
  | [] => rfl
  | e :: l => by
      unfold runAt
      by_cases hk : e.1 = k
      · rw [List.dropWhile_cons_of_neg (by simp [hk]), List.takeWhile_cons_of_pos (by simp [hk]),
          List.map_cons, takeWhile_eq_runOn k l, if_pos hk]
      · rw [List.dropWhile_cons_of_pos (by simp [Ne.symm hk]), if_neg hk]
        exact takeWhile_dropWhile_eq_runAt k l

theorem runOn_eq_atKey : ∀ {l : List (κ × ν)}, Grouped l →
    ((∃ e, l.head? = some e ∧ e.1 = k) ∨ atKey k l = []) → runOn k l = atKey k l
  | [], _, _ => rfl
  | e :: l, hg, h => by
      rw [atKey_cons]
      unfold runOn
      by_cases hk : e.1 = k
      · rw [if_pos hk, if_pos hk]
        congr 1
        exact runOn_eq_atKey hg.1 (hg.next_or_done hk)
      · rw [if_neg hk, if_neg hk]
        have hnil := atKey_eq_nil_of_past h hk
        rw [atKey_cons, if_neg hk] at hnil
        exact hnil.symm

/-- **A walk sees everything under its key.** -/
theorem runAt_eq_atKey : ∀ {l : List (κ × ν)}, Grouped l → runAt k l = atKey k l
  | [], _ => rfl
  | e :: l, hg => by
      rw [atKey_cons]
      unfold runAt
      by_cases hk : e.1 = k
      · rw [if_pos hk, if_pos hk]
        have hwhole := runOn_eq_atKey hg (Or.inl ⟨e, rfl, hk⟩)
        rw [atKey_cons, if_pos hk] at hwhole
        unfold runOn at hwhole
        rw [if_pos hk] at hwhole
        exact hwhole
      · rw [if_neg hk, if_neg hk]
        exact runAt_eq_atKey hg.1

/-! ## Putting -/

/-- Put a pair behind the run that the walk is in. -/
def putOn (k : κ) (v : ν) : List (κ × ν) → List (κ × ν)
  | [] => [(k, v)]
  | e :: l => if k = e.1 then e :: putOn k v l else (k, v) :: e :: l

/-- Put a pair behind the run of its key, or at the end. -/
def putAt (k : κ) (v : ν) : List (κ × ν) → List (κ × ν)
  | [] => [(k, v)]
  | e :: l => if k = e.1 then e :: putOn k v l else e :: putAt k v l

theorem mem_putOn : ∀ {l : List (κ × ν)},
    e ∈ putOn k v l ↔ e = (k, v) ∨ e ∈ l
  | [] => by simp [putOn]
  | f :: l => by
      unfold putOn
      split
      · rw [List.mem_cons, mem_putOn, List.mem_cons, or_left_comm]
      · rw [List.mem_cons]

theorem mem_putAt : ∀ {l : List (κ × ν)},
    e ∈ putAt k v l ↔ e = (k, v) ∨ e ∈ l
  | [] => by simp [putAt]
  | f :: l => by
      unfold putAt
      split
      · rw [List.mem_cons, mem_putOn, List.mem_cons, or_left_comm]
      · rw [List.mem_cons, mem_putAt, List.mem_cons, or_left_comm]

theorem head_putOn (k : κ) (v : ν) (l : List (κ × ν)) :
    ∃ f, (putOn k v l).head? = some f ∧ f.1 = k := by
  cases l with
  | nil => exact ⟨(k, v), rfl, rfl⟩
  | cons e l =>
      unfold putOn
      split
      · next h => exact ⟨e, rfl, h.symm⟩
      · exact ⟨(k, v), rfl, rfl⟩

theorem grouped_putOn : ∀ {l : List (κ × ν)}, Grouped l →
    ((∃ e, l.head? = some e ∧ e.1 = k) ∨ atKey k l = []) → Grouped (putOn k v l)
  | [], _, _ => ⟨trivial, by simp⟩
  | e :: l, hg, h => by
      unfold putOn
      by_cases hk : k = e.1
      · rw [if_pos hk]
        refine ⟨grouped_putOn hg.1 (hg.next_or_done hk.symm), ?_⟩
        intro _
        rw [← hk]
        exact head_putOn k v l
      · rw [if_neg hk]
        refine ⟨hg, ?_⟩
        intro hagain
        obtain ⟨f, hf, hfk⟩ := hagain
        -- the run was over before, so the key does not come again
        have hnone := atKey_eq_nil.mp (atKey_eq_nil_of_past h (Ne.symm hk))
        exact absurd hfk (hnone f hf)

theorem grouped_putAt : ∀ {l : List (κ × ν)}, Grouped l → Grouped (putAt k v l)
  | [], _ => ⟨trivial, by simp⟩
  | e :: l, hg => by
      unfold putAt
      by_cases hk : k = e.1
      · rw [if_pos hk]
        have hwhole := grouped_putOn (v := v) hg (Or.inl ⟨e, rfl, hk.symm⟩)
        unfold putOn at hwhole
        rw [if_pos hk] at hwhole
        exact hwhole
      · rw [if_neg hk]
        refine ⟨grouped_putAt hg.1, ?_⟩
        rintro ⟨f, hf, hfe⟩
        rcases mem_putAt.mp hf with rfl | hf
        · exact absurd hfe hk
        · obtain ⟨g, hg', hge⟩ := hg.2 ⟨f, hf, hfe⟩
          cases l with
          | nil => cases hf
          | cons g' l =>
              simp only [List.head?_cons, Option.some.injEq] at hg'
              subst hg'
              unfold putAt
              split <;> exact ⟨_, rfl, hge⟩

theorem atKey_putOn : ∀ {l : List (κ × ν)}, Grouped l →
    ((∃ e, l.head? = some e ∧ e.1 = k) ∨ atKey k l = []) → ∀ k',
    atKey k' (putOn k v l) = if k' = k then atKey k l ++ [v] else atKey k' l
  | [], _, _, k' => by
      unfold putOn
      rw [atKey_cons]
      by_cases h : k' = k
      · simp [h]
      · simp [h, Ne.symm h]
  | e :: l, hg, h, k' => by
      unfold putOn
      by_cases hk : k = e.1
      · have hrest := hg.next_or_done hk.symm
        rw [if_pos hk, atKey_cons, atKey_putOn hg.1 hrest k', atKey_cons, atKey_cons]
        by_cases hk' : k' = k
        · simp [hk', ← hk]
        · simp [hk', ← hk]
      · rw [if_neg hk]
        have hnil := atKey_eq_nil_of_past h (Ne.symm hk)
        rw [atKey_cons]
        by_cases hk' : k' = k
        · simp [hk', hnil]
        · simp [hk', Ne.symm hk']

/-- **What is put under a key comes last under it**, and nothing changes under the others. -/
theorem atKey_putAt : ∀ {l : List (κ × ν)}, Grouped l → ∀ k',
    atKey k' (putAt k v l) = if k' = k then atKey k l ++ [v] else atKey k' l
  | [], _, k' => by
      unfold putAt
      rw [atKey_cons]
      by_cases h : k' = k
      · simp [h]
      · simp [h, Ne.symm h]
  | e :: l, hg, k' => by
      unfold putAt
      by_cases hk : k = e.1
      · have hwhole := atKey_putOn (v := v) hg (Or.inl ⟨e, rfl, hk.symm⟩) k'
        unfold putOn at hwhole
        rw [if_pos hk] at hwhole
        rw [if_pos hk]
        exact hwhole
      · rw [if_neg hk, atKey_cons, atKey_putAt hg.1 k', atKey_cons, atKey_cons]
        by_cases hk' : k' = k
        · simp [hk', Ne.symm hk]
        · simp [hk']

/-! ## Erasing -/

/-- Erase the pairs of the run that the walk is in whose value passes a test. -/
def eraseOn (k : κ) (p : ν → Bool) : List (κ × ν) → List (κ × ν)
  | [] => []
  | e :: l =>
      if e.1 = k then if p e.2 then eraseOn k p l else e :: eraseOn k p l
      else e :: l

/-- Walk to the run of a key and erase in it. -/
def eraseAt (k : κ) (p : ν → Bool) : List (κ × ν) → List (κ × ν)
  | [] => []
  | e :: l => if e.1 = k then eraseOn k p (e :: l) else e :: eraseAt k p l

/-- Erase the first pair of the run that the walk is in whose value passes a test. -/
def eraseOneOn (k : κ) (p : ν → Bool) : List (κ × ν) → List (κ × ν)
  | [] => []
  | e :: l => if e.1 = k then if p e.2 then l else e :: eraseOneOn k p l else e :: l

/-- Walk to the run of a key and erase the first pair whose value passes a test. -/
def eraseOneAt (k : κ) (p : ν → Bool) : List (κ × ν) → List (κ × ν)
  | [] => []
  | e :: l => if e.1 = k then eraseOneOn k p (e :: l) else e :: eraseOneAt k p l

theorem eraseOn_sublist (k : κ) (p : ν → Bool) : ∀ l : List (κ × ν), (eraseOn k p l).Sublist l
  | [] => List.Sublist.slnil
  | e :: l => by
      unfold eraseOn
      split
      · split
        · exact (eraseOn_sublist k p l).cons _
        · exact (eraseOn_sublist k p l).cons_cons _
      · exact List.Sublist.refl _

theorem eraseAt_sublist (k : κ) (p : ν → Bool) : ∀ l : List (κ × ν), (eraseAt k p l).Sublist l
  | [] => List.Sublist.slnil
  | e :: l => by
      unfold eraseAt
      split
      · exact eraseOn_sublist k p _
      · exact (eraseAt_sublist k p l).cons_cons _

theorem eraseOneOn_sublist (k : κ) (p : ν → Bool) :
    ∀ l : List (κ × ν), (eraseOneOn k p l).Sublist l
  | [] => List.Sublist.slnil
  | e :: l => by
      unfold eraseOneOn
      split
      · split
        · exact List.sublist_cons_self _ _
        · exact (eraseOneOn_sublist k p l).cons_cons _
      · exact List.Sublist.refl _

theorem eraseOneAt_sublist (k : κ) (p : ν → Bool) :
    ∀ l : List (κ × ν), (eraseOneAt k p l).Sublist l
  | [] => List.Sublist.slnil
  | e :: l => by
      unfold eraseOneAt
      split
      · exact eraseOneOn_sublist k p _
      · exact (eraseOneAt_sublist k p l).cons_cons _

omit [DecidableEq κ] in
/-- Runs stay together when pairs go. -/
theorem Grouped.sublist : ∀ {l m : List (κ × ν)}, m.Sublist l → Grouped l → Grouped m := by
  intro l m hsub
  induction hsub with
  | slnil => exact id
  | cons e _ ih => exact fun hg => ih hg.1
  | @cons_cons m l e hsub ih =>
      intro hg
      refine ⟨ih hg.1, ?_⟩
      rintro ⟨f, hf, hfe⟩
      -- the first pair that is left is of the run, or the run was over before
      clear ih
      induction hsub with
      | slnil => cases hf
      | @cons m l g hsub ih =>
          have hnext : g.1 = e.1 := by
            obtain ⟨g', hg', hge⟩ := hg.2 ⟨f, List.mem_cons_of_mem _ (hsub.subset hf), hfe⟩
            simp only [List.head?_cons, Option.some.injEq] at hg'
            rw [hg']
            exact hge
          refine ih ⟨hg.1.1, ?_⟩ hf
          rintro ⟨f', hf', hfe'⟩
          rw [← hnext] at hfe' ⊢
          exact hg.1.2 ⟨f', hf', hfe'⟩
      | @cons_cons m l g hsub _ =>
          obtain ⟨g', hg', hge⟩ := hg.2 ⟨f, (hsub.cons_cons g).subset hf, hfe⟩
          simp only [List.head?_cons, Option.some.injEq] at hg'
          exact ⟨g, rfl, by rw [hg']; exact hge⟩

/-- **Erasing in a run is a filter of the whole sequence.** -/
theorem eraseOn_eq_filter (p : ν → Bool) : ∀ {l : List (κ × ν)}, Grouped l →
    ((∃ e, l.head? = some e ∧ e.1 = k) ∨ atKey k l = []) →
    eraseOn k p l = l.filter (fun e => !(decide (e.1 = k) && p e.2))
  | [], _, _ => rfl
  | e :: l, hg, h => by
      unfold eraseOn
      by_cases hk : e.1 = k
      · rw [if_pos hk, eraseOn_eq_filter p hg.1 (hg.next_or_done hk), List.filter_cons]
        cases p e.2 <;> simp [hk]
      · -- the walk stops here, and behind it there is no pair of the key
        have hnone := atKey_eq_nil.mp (atKey_eq_nil_of_past h hk)
        rw [if_neg hk, List.filter_eq_self.mpr]
        intro f hf
        simp [hnone f hf]

theorem eraseAt_eq_filter (p : ν → Bool) : ∀ {l : List (κ × ν)}, Grouped l →
    eraseAt k p l = l.filter (fun e => !(decide (e.1 = k) && p e.2))
  | [], _ => rfl
  | e :: l, hg => by
      unfold eraseAt
      by_cases hk : e.1 = k
      · rw [if_pos hk]
        exact eraseOn_eq_filter p hg (Or.inl ⟨e, rfl, hk⟩)
      · rw [if_neg hk, eraseAt_eq_filter p hg.1, List.filter_cons, if_pos (by simp [hk])]

/-- **Erasing one in a run takes the first one of the whole sequence.** -/
theorem eraseOneOn_eq_eraseP (p : ν → Bool) : ∀ {l : List (κ × ν)}, Grouped l →
    ((∃ e, l.head? = some e ∧ e.1 = k) ∨ atKey k l = []) →
    eraseOneOn k p l = l.eraseP (fun e => decide (e.1 = k) && p e.2)
  | [], _, _ => rfl
  | e :: l, hg, h => by
      unfold eraseOneOn
      by_cases hk : e.1 = k
      · rw [if_pos hk, eraseOneOn_eq_eraseP p hg.1 (hg.next_or_done hk), List.eraseP_cons]
        cases p e.2 <;> simp [hk]
      · -- no pair of the key is left, so nothing is to be erased
        have hnone := atKey_eq_nil.mp (atKey_eq_nil_of_past h hk)
        rw [if_neg hk, List.eraseP_of_forall_not]
        intro f hf
        simp [hnone f hf]

theorem eraseOneAt_eq_eraseP (p : ν → Bool) : ∀ {l : List (κ × ν)}, Grouped l →
    eraseOneAt k p l = l.eraseP (fun e => decide (e.1 = k) && p e.2)
  | [], _ => rfl
  | e :: l, hg => by
      unfold eraseOneAt
      by_cases hk : e.1 = k
      · rw [if_pos hk]
        exact eraseOneOn_eq_eraseP p hg (Or.inl ⟨e, rfl, hk⟩)
      · rw [if_neg hk, eraseOneAt_eq_eraseP p hg.1, List.eraseP_cons_of_neg (by simp [hk])]

theorem atKey_eraseAt (p : ν → Bool) (hg : Grouped l) (k' : κ) :
    atKey k' (eraseAt k p l) =
      if k' = k then (atKey k l).filter (fun v => !p v) else atKey k' l := by
  rw [eraseAt_eq_filter p hg, atKey_filter_at]

theorem atKey_eraseOneAt (p : ν → Bool) (hg : Grouped l) (k' : κ) :
    atKey k' (eraseOneAt k p l) = if k' = k then (atKey k l).eraseP p else atKey k' l := by
  rw [eraseOneAt_eq_eraseP p hg, atKey_eraseP_at]

/-! ## Changing in place -/

/-- Change the value of the first pair of a key. -/
def updateAt (k : κ) (f : ν → ν) : List (κ × ν) → List (κ × ν)
  | [] => []
  | e :: l => if e.1 = k then (e.1, f e.2) :: l else e :: updateAt k f l

theorem keys_updateAt (k : κ) (f : ν → ν) : ∀ l : List (κ × ν),
    (updateAt k f l).map Prod.fst = l.map Prod.fst
  | [] => rfl
  | e :: l => by
      unfold updateAt
      split
      · rfl
      · rw [List.map_cons, keys_updateAt k f l, List.map_cons]

omit [DecidableEq κ] in
/-- Whether runs are together is a matter of the keys. -/
theorem Grouped.of_keys : ∀ {l m : List (κ × ν)}, m.map Prod.fst = l.map Prod.fst → Grouped l →
    Grouped m
  | [], [], _, _ => trivial
  | [], _ :: _, h, _ => by cases h
  | _ :: _, [], h, _ => by cases h
  | e :: l, e' :: m, h, hg => by
      simp only [List.map_cons, List.cons.injEq] at h
      refine ⟨Grouped.of_keys h.2 hg.1, ?_⟩
      rintro ⟨f, hf, hfe⟩
      have hmem : f.1 ∈ l.map Prod.fst := by
        rw [← h.2]
        exact List.mem_map_of_mem hf
      obtain ⟨f', hf', hfk⟩ := List.mem_map.mp hmem
      obtain ⟨g, hg', hge⟩ := hg.2 ⟨f', hf', by rw [hfk, hfe, h.1]⟩
      cases l with
      | nil => cases hg'
      | cons g' l =>
          cases m with
          | nil => cases hf
          | cons m' m =>
              simp only [List.head?_cons, Option.some.injEq] at hg'
              simp only [List.map_cons, List.cons.injEq] at h
              exact ⟨m', rfl, by rw [h.2.1, hg', hge, h.1]⟩

theorem atKey_updateAt (k : κ) (f : ν → ν) : ∀ (l : List (κ × ν)) (k' : κ),
    atKey k' (updateAt k f l) =
      if k' = k then (atKey k l).modifyHead f else atKey k' l
  | [], k' => by
      simp [updateAt]
  | e :: l, k' => by
      unfold updateAt
      by_cases hk : e.1 = k
      · rw [if_pos hk, atKey_cons, atKey_cons k e l, if_pos hk, atKey_cons k' e l]
        by_cases hk' : k' = k
        · simp [hk', hk]
        · simp [hk', hk, Ne.symm hk']
      · rw [if_neg hk, atKey_cons, atKey_updateAt k f l k', atKey_cons k e l, if_neg hk,
          atKey_cons k' e l]
        by_cases hk' : k' = k
        · simp [hk', hk]
        · simp [hk']

end Encoders.Lib
