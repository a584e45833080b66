import Mathlib.Data.List.Perm.Basic
import Mathlib.Order.Lattice
import Mathlib.Algebra.Order.Group.Int

/-!
# Taking things greedily

Things are taken in an order and each goes where there is room for it.

The order is by a key, and among equal keys by date. It may be made in two steps: something
that knows only the key brings the things out, ties and all, and then each run of ties is put
in order by date. `TieSorted` is the second step, where ties are told by a label. If the label
is the key that is a sort by key and date, and if it is not it may still be one:
`TieSorted.pairwise` has what the labels must have to do with the keys.
-/

namespace Encoders.Lib

/-! ## Runs of ties -/

section Ties

variable {α κ δ ι : Type} [LinearOrder κ] [LinearOrder δ] {key : α → κ} {date : α → δ}
  {label : α → ι}

/-- Runs of one label, each put in order by date, the latest first. A run goes on for as long
as the label is the same. -/
inductive TieSorted (label : α → ι) (date : α → δ) : List α → List α → Prop
  | nil : TieSorted label date [] []
  | run {x : α} {ties sorted rest out : List α} : (∀ y ∈ ties, label y = label x) →
      sorted.Perm (x :: ties) → sorted.Pairwise (fun a b => date b ≤ date a) →
      (∀ z ∈ rest.head?, label z ≠ label x) → TieSorted label date rest out →
      TieSorted label date (x :: ties ++ rest) (sorted ++ out)

theorem TieSorted.perm {l out : List α} (h : TieSorted label date l out) : out.Perm l := by
  induction h with
  | nil => exact List.Perm.refl _
  | run _ hperm _ _ _ ih => exact hperm.append ih

/-- Before: by key, and by date among equal keys. -/
def KeyThenDate (key : α → κ) (date : α → δ) (a b : α) : Prop :=
  key a < key b ∨ key a = key b ∧ date b ≤ date a

/--
What labels must have to do with keys, among the things there are. Two of one key have one
label, unless it does not matter because they have one date. Two of one label but of different
keys are in order by date as well, unless a third of another label comes between them.
-/
structure LabelsTell (key : α → κ) (date : α → δ) (label : α → ι) (l : List α) : Prop where
  same : ∀ a ∈ l, ∀ b ∈ l, key a = key b → label a = label b ∨ date a = date b
  apart : ∀ a ∈ l, ∀ b ∈ l, label a = label b → key a < key b →
    date b < date a ∨ ∃ z ∈ l, key a < key z ∧ key z < key b ∧ label z ≠ label a

/-- Of the key itself as the label. -/
theorem LabelsTell.self (l : List α) : LabelsTell key date key l where
  same _ _ _ _ h := Or.inl h
  apart _ _ _ _ h hlt := absurd h (ne_of_lt hlt)

theorem LabelsTell.perm {l l' : List α} (h : LabelsTell key date label l) (hperm : l'.Perm l) :
    LabelsTell key date label l' where
  same a ha b hb := h.same a (hperm.mem_iff.mp ha) b (hperm.mem_iff.mp hb)
  apart a ha b hb hab hlt := by
    rcases h.apart a (hperm.mem_iff.mp ha) b (hperm.mem_iff.mp hb) hab hlt with
      hdate | ⟨z, hz, hbetween⟩
    · exact Or.inl hdate
    · exact Or.inr ⟨z, hperm.mem_iff.mpr hz, hbetween⟩

/-- The things may be read through a function. -/
theorem LabelsTell.of_map {β : Type} {f : β → α} {l : List β}
    (h : LabelsTell key date label (l.map f)) :
    LabelsTell (fun b => key (f b)) (fun b => date (f b)) (fun b => label (f b)) l where
  same a ha b hb := h.same (f a) (List.mem_map_of_mem ha) (f b) (List.mem_map_of_mem hb)
  apart a ha b hb hab hlt := by
    rcases h.apart (f a) (List.mem_map_of_mem ha) (f b) (List.mem_map_of_mem hb) hab hlt with
      hdate | ⟨z, hz, hbetween⟩
    · exact Or.inl hdate
    · obtain ⟨c, hc, rfl⟩ := List.mem_map.mp hz
      exact Or.inr ⟨c, hc, hbetween⟩

/-- What is left after a run: nothing in it was between two of the things left. -/
theorem LabelsTell.rest {front rest : List α} (h : LabelsTell key date label (front ++ rest))
    (hle : ∀ a ∈ front, ∀ b ∈ rest, key a ≤ key b) : LabelsTell key date label rest where
  same a ha b hb := h.same a (List.mem_append_right _ ha) b (List.mem_append_right _ hb)
  apart a ha b hb hab hlt := by
    rcases h.apart a (List.mem_append_right _ ha) b (List.mem_append_right _ hb) hab hlt with
      hdate | ⟨z, hz, haz, hzb, hne⟩
    · exact Or.inl hdate
    · rcases List.mem_append.mp hz with hfront | hrest
      · exact absurd haz (not_lt.mpr (hle z hfront a ha))
      · exact Or.inr ⟨z, hrest, haz, hzb, hne⟩

/-- Two of one run, in order by date. -/
theorem keyThenDate_of_run {run rest : List α} {a b : α}
    (h : LabelsTell key date label (run ++ rest))
    (hle : ∀ c ∈ run, ∀ d ∈ rest, key c ≤ key d) (hlabel : ∀ c ∈ run, ∀ d ∈ run, label c = label d)
    (ha : a ∈ run) (hb : b ∈ run) (hdate : date b ≤ date a) : KeyThenDate key date a b := by
  rcases lt_trichotomy (key a) (key b) with hlt | heq | hgt
  · exact Or.inl hlt
  · exact Or.inr ⟨heq, hdate⟩
  · -- out of order by key: then also by date, since the run has no other label in it
    rcases h.apart b (List.mem_append_left _ hb) a (List.mem_append_left _ ha)
      (hlabel b hb a ha) hgt with hlater | ⟨z, hz, _, hza, hne⟩
    · exact absurd hdate (not_le.mpr hlater)
    · rcases List.mem_append.mp hz with hrun | hrest
      · exact absurd (hlabel z hrun b hb) hne
      · exact absurd hza (not_lt.mpr (hle a ha z hrest))

/-- One of a run and one that comes later: the first of what comes later has another label. -/
theorem keyThenDate_of_rest {x : α} {run rest : List α} {a b : α}
    (h : LabelsTell key date label (run ++ rest)) (hrest : rest.Pairwise (fun c d => key c ≤ key d))
    (hle : ∀ c ∈ run, ∀ d ∈ rest, key c ≤ key d) (hlabel : ∀ c ∈ run, label c = label x)
    (hhead : ∀ z ∈ rest.head?, label z ≠ label x) (ha : a ∈ run) (hb : b ∈ rest) :
    KeyThenDate key date a b := by
  rcases lt_or_eq_of_le (hle a ha b hb) with hlt | heq
  · exact Or.inl hlt
  · refine Or.inr ⟨heq, ?_⟩
    cases rest with
    | nil => exact absurd hb List.not_mem_nil
    | cons z zs =>
        have hne : label z ≠ label a := hlabel a ha ▸ hhead z rfl
        have hza : key a = key z := by
          refine le_antisymm (hle a ha z List.mem_cons_self) ?_
          rw [heq]
          rcases List.mem_cons.mp hb with rfl | hbzs
          · exact le_refl _
          · exact List.rel_of_pairwise_cons hrest hbzs
        have hdz : date a = date z := by
          rcases h.same a (List.mem_append_left _ ha) z
            (List.mem_append_right _ List.mem_cons_self) hza with hl | hd
          · exact absurd hl.symm hne
          · exact hd
        rcases h.same a (List.mem_append_left _ ha) b (List.mem_append_right _ hb) heq with
          hab | hdate
        · rcases h.same z (List.mem_append_right _ List.mem_cons_self) b
            (List.mem_append_right _ hb) (hza ▸ heq) with hzb | hdzb
          · exact absurd (hzb.trans hab.symm) hne
          · rw [hdz, hdzb]
        · rw [hdate]

/-- **Sorting the runs sorts everything**, if the labels tell what the keys tell. -/
theorem TieSorted.pairwise {l out : List α} (h : TieSorted label date l out)
    (hsorted : l.Pairwise (fun a b => key a ≤ key b)) (htell : LabelsTell key date label l) :
    out.Pairwise (KeyThenDate key date) := by
  induction h with
  | nil => exact List.Pairwise.nil
  | @run x ties sorted rest out hties hperm hdate hhead hout ih =>
      obtain ⟨_, hrest, hle⟩ := List.pairwise_append.mp hsorted
      have hlabel : ∀ c ∈ x :: ties, label c = label x := by
        intro c hc
        rcases List.mem_cons.mp hc with rfl | hc
        · rfl
        · exact hties c hc
      refine List.pairwise_append.mpr ⟨?_, ih hrest (htell.rest hle), ?_⟩
      · refine hdate.imp_of_mem fun {a b} ha hb hab => ?_
        exact keyThenDate_of_run htell hle (fun c hc d hd => (hlabel c hc).trans (hlabel d hd).symm)
          (hperm.mem_iff.mp ha) (hperm.mem_iff.mp hb) hab
      · intro a ha b hb
        exact keyThenDate_of_rest htell hrest hle hlabel hhead (hperm.mem_iff.mp ha)
          (hout.perm.mem_iff.mp hb)

end Ties

/-! ## Room -/

section Room

variable {α β : Type} {cost : α → Int}

/-- One thing after another is kept if it costs less than is free, and dropped if not. -/
inductive Sifts (cost : α → Int) : Int → List α → List α → List α → Prop
  | nil {free : Int} : Sifts cost free [] [] []
  | keep {free : Int} {m : α} {l kept dropped : List α} : cost m < free →
      Sifts cost (free - cost m) l kept dropped → Sifts cost free (m :: l) (m :: kept) dropped
  | drop {free : Int} {m : α} {l kept dropped : List α} : ¬cost m < free →
      Sifts cost free l kept dropped → Sifts cost free (m :: l) kept (m :: dropped)

theorem Sifts.perm {free : Int} {l kept dropped : List α} (h : Sifts cost free l kept dropped) :
    (kept ++ dropped).Perm l := by
  induction h with
  | nil => exact List.Perm.refl _
  | keep _ _ ih => exact ih.cons _
  | drop _ _ ih => exact List.perm_middle.trans (ih.cons _)

/-- There is one way. -/
theorem Sifts.unique {free : Int} {l kept dropped kept' dropped' : List α}
    (h : Sifts cost free l kept dropped) (h' : Sifts cost free l kept' dropped') :
    kept = kept' ∧ dropped = dropped' := by
  induction h generalizing kept' dropped' with
  | nil => cases h' with | nil => exact ⟨rfl, rfl⟩
  | keep hlt _ ih =>
      cases h' with
      | keep _ hrest =>
          obtain ⟨rfl, rfl⟩ := ih hrest
          exact ⟨rfl, rfl⟩
      | drop hge _ => exact absurd hlt hge
  | drop hge _ ih =>
      cases h' with
      | keep hlt _ => exact absurd hlt hge
      | drop _ hrest =>
          obtain ⟨rfl, rfl⟩ := ih hrest
          exact ⟨rfl, rfl⟩

/-- Only the costs matter. -/
theorem Sifts.map {f : β → α} {free : Int} {l kept dropped : List β}
    (h : Sifts (fun m => cost (f m)) free l kept dropped) :
    Sifts cost free (l.map f) (kept.map f) (dropped.map f) := by
  induction h with
  | nil => exact Sifts.nil
  | keep hlt _ ih => exact Sifts.keep hlt ih
  | drop hge _ ih => exact Sifts.drop hge ih

/-- Where nothing costs less than is free, nothing is kept. -/
theorem Sifts.kept_eq_nil {free : Int} {l kept dropped : List α}
    (h : Sifts cost free l kept dropped) (hnone : ∀ m ∈ l, ¬cost m < free) : kept = [] := by
  induction h with
  | nil => rfl
  | keep hlt _ _ => exact absurd hlt (hnone _ List.mem_cons_self)
  | drop _ _ ih => exact ih fun m hm => hnone m (List.mem_cons_of_mem _ hm)

end Room

end Encoders.Lib
